import AcojWorker.Effect.Program
import Mathlib.Data.List.Forall2

/-!
# Programs in lockstep

Two programs run in lockstep if they make the same calls, raise the same exceptions and
return related values. Whatever a handler answers, it answers both of them alike, so no
world tells the two apart except by the values they return; related by equality, they are
the same program.
-/

namespace Effect

namespace Program

variable {S : Signature} {ε α α' β β' : Type}

inductive Lockstep (R : α → β → Prop) : Program S ε α → Program S ε β → Prop where
  | ret {a : α} {b : β} (h : R a b) : Lockstep R (.ret a) (.ret b)
  | raise (e : ε) : Lockstep R (.raise e) (.raise e)
  | call (op : S.Op) {next : Except ε (S.Res op) → Program S ε α}
      {next' : Except ε (S.Res op) → Program S ε β} (h : ∀ r, Lockstep R (next r) (next' r)) :
      Lockstep R (.call op next) (.call op next')

namespace Lockstep

variable {R : α → β → Prop} {R' : α' → β' → Prop}

theorem refl {R : α → α → Prop} (reflexive : ∀ a, R a a) (p : Program S ε α) :
    Lockstep R p p := by
  induction p with
  | ret a => exact .ret (reflexive a)
  | raise e => exact .raise e
  | call op next ih => exact .call op ih

theorem bind {p : Program S ε α} {q : Program S ε β} {f : α → Program S ε α'}
    {g : β → Program S ε β'} (h : Lockstep R p q) (hf : ∀ a b, R a b → Lockstep R' (f a) (g b)) :
    Lockstep R' (p >>= f) (q >>= g) := by
  induction h with
  | ret h => exact hf _ _ h
  | raise e => exact .raise e
  | call op _ ih => exact .call op ih

/-- The same step on both sides. -/
theorem step {p : Program S ε β} {f : β → Program S ε α'} {g : β → Program S ε β'}
    (hf : ∀ b, Lockstep R' (f b) (g b)) : Lockstep R' (p >>= f) (p >>= g) := by
  refine bind (refl (R := Eq) (fun _ => rfl) p) ?_
  rintro a _ rfl
  exact hf a

theorem tryCatch {p : Program S ε α} {q : Program S ε β} {handler : ε → Program S ε α}
    {handler' : ε → Program S ε β} (h : Lockstep R p q)
    (hh : ∀ e, Lockstep R (handler e) (handler' e)) :
    Lockstep R (p.tryCatch handler) (q.tryCatch handler') := by
  induction h with
  | ret h => exact .ret h
  | raise e => exact hh e
  | call op _ ih => exact .call op ih

theorem tryFinally {p : Program S ε α} {q : Program S ε β} (h : Lockstep R p q)
    (cleanup : Program S ε Unit) : Lockstep R (p.tryFinally cleanup) (q.tryFinally cleanup) := by
  induction h with
  | ret h => exact step fun _ => .ret h
  | raise e => exact step fun _ => .raise e
  | call op _ ih => exact .call op ih

/-- A loop over related elements. -/
theorem foldlM {γ γ' : Type} {P : γ → γ' → Prop} {f : α → γ → Program S ε α}
    {g : β → γ' → Program S ε β} {xs : List γ} {ys : List γ'} (pairs : List.Forall₂ P xs ys)
    (step : ∀ a b x y, R a b → P x y → Lockstep R (f a x) (g b y)) {a : α} {b : β}
    (start : R a b) : Lockstep R (xs.foldlM f a) (ys.foldlM g b) := by
  induction pairs generalizing a b with
  | nil => exact .ret start
  | cons hxy _ ih =>
      rw [List.foldlM_cons, List.foldlM_cons]
      exact bind (step _ _ _ _ start hxy) fun _ _ next => ih next

end Lockstep

end Program

/-- Two computations that fail alike, or return related values. -/
inductive Agree {ε α β : Type} (R : α → β → Prop) : Except ε α → Except ε β → Prop where
  | ok {a : α} {b : β} (h : R a b) : Agree R (.ok a) (.ok b)
  | error (e : ε) : Agree R (.error e) (.error e)

namespace Agree

variable {ε α α' β β' : Type} {R : α → β → Prop} {R' : α' → β' → Prop}

theorem of_eq {x y : Except ε α} (h : x = y) : Agree Eq x y := by
  subst h
  cases x with
  | ok a => exact .ok rfl
  | error e => exact .error e

theorem bind {x : Except ε α} {y : Except ε β} {f : α → Except ε α'} {g : β → Except ε β'}
    (h : Agree R x y) (hf : ∀ a b, R a b → Agree R' (f a) (g b)) :
    Agree R' (x >>= f) (y >>= g) := by
  cases h with
  | ok h => exact hf _ _ h
  | error e => exact .error e

/-- The same step on both sides. -/
theorem step {x y : Except ε β} (same : x = y) {f : β → Except ε α'} {g : β → Except ε β'}
    (hf : ∀ b, Agree R' (f b) (g b)) : Agree R' (x >>= f) (y >>= g) := by
  refine bind (of_eq same) ?_
  rintro b _ rfl
  exact hf b

theorem foldlM {γ : Type} {f : α → γ → Except ε α} {g : β → γ → Except ε β}
    (step : ∀ a b x, R a b → Agree R (f a x) (g b x)) (xs : List γ) {a : α} {b : β}
    (start : R a b) : Agree R (xs.foldlM f a) (xs.foldlM g b) := by
  induction xs generalizing a b with
  | nil => exact .ok start
  | cons x xs ih =>
      rw [List.foldlM_cons, List.foldlM_cons]
      exact bind (step _ _ _ start) fun _ _ next => ih next

/-- Both sides are computed from one computation. -/
theorem of_map {γ : Type} (x : Except ε γ) {f : γ → α} {g : γ → β} (h : ∀ c, R (f c) (g c)) :
    Agree R (x.map f) (x.map g) := by
  cases x with
  | ok c => exact .ok (h c)
  | error e => exact .error e

end Agree

end Effect
