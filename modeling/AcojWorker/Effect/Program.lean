import Mathlib.Tactic.Basic

/-!
# Programs over external calls, with exceptions

A program is a tree of external calls. Every call is answered by a value or by an
exception, and the continuation sees which: `try … except` and `try … finally` are
therefore ordinary functions on programs, not part of the syntax.

A handler answers the calls from a state of its own. It may answer every call as it
likes, and may let the answer depend on all earlier calls, so a statement about every
handler is a statement about every behaviour of the world outside the program.
-/

namespace Effect

/-- The external calls of a class of programs, each with the type of its answer. -/
structure Signature where
  Op : Type
  Res : Op → Type

/-- A finite program over the calls of `S`, raising exceptions of type `ε`. -/
inductive Program (S : Signature) (ε α : Type) where
  | ret (value : α)
  | raise (error : ε)
  | call (op : S.Op) (next : Except ε (S.Res op) → Program S ε α)

/-- Answers to calls, from a state that records whatever the answers depend on. -/
abbrev Handler (S : Signature) (ε σ : Type) : Type :=
  (op : S.Op) → σ → Except ε (S.Res op) × σ

namespace Program

variable {S : Signature} {ε α β γ σ : Type}

def bind : Program S ε α → (α → Program S ε β) → Program S ε β
  | .ret a, f => f a
  | .raise e, _ => .raise e
  | .call op next, f => .call op (fun r => (next r).bind f)

instance : Monad (Program S ε) where
  pure := .ret
  bind := bind

@[simp] theorem pure_eq (a : α) : (pure a : Program S ε α) = .ret a := rfl

@[simp] theorem raise_bind (e : ε) (f : α → Program S ε β) :
    (Program.raise e >>= f) = .raise e := rfl

@[simp] theorem call_bind (op : S.Op) (next : Except ε (S.Res op) → Program S ε α)
    (f : α → Program S ε β) :
    (Program.call op next >>= f) = .call op (fun r => next r >>= f) := rfl

theorem bind_ret (p : Program S ε α) : (p >>= Program.ret) = p := by
  induction p with
  | ret => rfl
  | raise => rfl
  | call op next ih =>
      rw [call_bind]
      exact congrArg _ (funext ih)

theorem bind_bind (p : Program S ε α) (f : α → Program S ε β) (g : β → Program S ε γ) :
    ((p >>= f) >>= g) = (p >>= fun a => f a >>= g) := by
  induction p with
  | ret => rfl
  | raise => rfl
  | call op next ih =>
      simp only [call_bind]
      exact congrArg _ (funext ih)

instance : LawfulMonad (Program S ε) :=
  LawfulMonad.mk' _ bind_ret (fun _ _ => rfl) bind_bind

/-- One external call; its exception is raised. -/
def perform (op : S.Op) : Program S ε (S.Res op) :=
  .call op fun
    | .ok r => .ret r
    | .error e => .raise e

/-- A computation without external calls. -/
def ofExcept : Except ε α → Program S ε α
  | .ok a => .ret a
  | .error e => .raise e

/-- Steps without external calls are written among the calls. -/
instance : MonadLift (Except ε) (Program S ε) := ⟨ofExcept⟩

theorem lift_ok_bind (a : α) (f : α → Program S ε β) :
    ((liftM (.ok a : Except ε α) : Program S ε α) >>= f) = f a := rfl

theorem lift_error_bind (e : ε) (f : α → Program S ε β) :
    ((liftM (.error e : Except ε α) : Program S ε α) >>= f) = .raise e := rfl

/-- `try p except e: handler e`. -/
def tryCatch : Program S ε α → (ε → Program S ε α) → Program S ε α
  | .ret a, _ => .ret a
  | .raise e, handler => handler e
  | .call op next, handler => .call op (fun r => (next r).tryCatch handler)

/-- `try p finally cleanup`: an exception of the clean-up replaces the outcome of `p`. -/
def tryFinally : Program S ε α → Program S ε Unit → Program S ε α
  | .ret a, cleanup => cleanup >>= fun _ => .ret a
  | .raise e, cleanup => cleanup >>= fun _ => .raise e
  | .call op next, cleanup => .call op (fun r => (next r).tryFinally cleanup)

/-- The outcome of a program as a value. -/
def attempt : Program S ε α → Program S ε (Except ε α)
  | .ret a => .ret (.ok a)
  | .raise e => .ret (.error e)
  | .call op next => .call op (fun r => (next r).attempt)

/-- The clean-up of a block left by an exception, which is raised again afterwards. -/
def onRaise (p : Program S ε α) (cleanup : Program S ε Unit) : Program S ε α :=
  p.tryCatch fun e => cleanup >>= fun _ => .raise e

/-- Run a program to its end against a handler. -/
def run (h : Handler S ε σ) : Program S ε α → σ → Except ε α × σ
  | .ret a, s => (.ok a, s)
  | .raise e, s => (.error e, s)
  | .call op next, s => (next (h op s).1).run h (h op s).2

variable (h : Handler S ε σ)

/-- What is computed from the value of a run is computed from a value it returns. -/
theorem run_of_map {p : Program S ε α} {s : σ} {f : α → β} {b : β}
    (hp : (p.run h s).1.toOption.map f = some b) :
    ∃ a s', p.run h s = (.ok a, s') ∧ f a = b := by
  match hrun : p.run h s with
  | (.ok a, s') => exact ⟨a, s', rfl, by simpa [hrun, Except.toOption] using hp⟩
  | (.error e, s') => simp [hrun, Except.toOption] at hp

@[simp] theorem run_ret (a : α) (s : σ) : (Program.ret a).run h s = (.ok a, s) := rfl

@[simp] theorem run_raise (e : ε) (s : σ) :
    (Program.raise e : Program S ε α).run h s = (.error e, s) := rfl

theorem run_call (op : S.Op) (next : Except ε (S.Res op) → Program S ε α) (s : σ) :
    (Program.call op next).run h s = (next (h op s).1).run h (h op s).2 := rfl

@[simp] theorem run_perform (op : S.Op) (s : σ) :
    (perform op : Program S ε _).run h s = h op s := by
  rw [perform, run_call]
  cases hr : h op s with
  | mk r s' => cases r <;> rfl

@[simp] theorem run_ofExcept (r : Except ε α) (s : σ) :
    (ofExcept r : Program S ε α).run h s = (r, s) := by
  cases r <;> rfl

theorem run_lift (r : Except ε α) (s : σ) :
    (liftM r : Program S ε α).run h s = (r, s) :=
  run_ofExcept h r s

theorem run_bind (p : Program S ε α) (f : α → Program S ε β) (s : σ) :
    (p >>= f).run h s =
      match p.run h s with
      | (.ok a, s') => (f a).run h s'
      | (.error e, s') => (.error e, s') := by
  induction p generalizing s with
  | ret => rfl
  | raise => rfl
  | call op next ih =>
      rw [call_bind, run_call, run_call]
      exact ih _ _

theorem run_bind_ok {p : Program S ε α} {f : α → Program S ε β} {s s' : σ} {a : α}
    (hp : p.run h s = (.ok a, s')) : (p >>= f).run h s = (f a).run h s' := by
  rw [run_bind, hp]

theorem run_tryCatch (p : Program S ε α) (handler : ε → Program S ε α) (s : σ) :
    (p.tryCatch handler).run h s =
      match p.run h s with
      | (.ok a, s') => (.ok a, s')
      | (.error e, s') => (handler e).run h s' := by
  induction p generalizing s with
  | ret => rfl
  | raise => rfl
  | call op next ih => exact ih _ _

theorem run_tryFinally (p : Program S ε α) (cleanup : Program S ε Unit) (s : σ) :
    (p.tryFinally cleanup).run h s =
      match cleanup.run h (p.run h s).2 with
      | (.ok _, s') => ((p.run h s).1, s')
      | (.error e, s') => (.error e, s') := by
  induction p generalizing s with
  | ret a =>
      change (cleanup >>= fun _ => .ret a).run h s = _
      simp only [run_bind, run_ret]
      rcases cleanup.run h s with ⟨_ | _, _⟩ <;> rfl
  | raise e =>
      change (cleanup >>= fun _ => .raise e).run h s = _
      simp only [run_bind, run_raise]
      rcases cleanup.run h s with ⟨_ | _, _⟩ <;> rfl
  | call op next ih => exact ih _ _

/-! ### Partial correctness

A postcondition holds of every value a program returns, whatever state it is started in;
a program that raises an exception satisfies every postcondition. -/

def Ensures (p : Program S ε α) (Q : α → Prop) : Prop :=
  ∀ s a s', p.run h s = (.ok a, s') → Q a

variable {h} {P : β → Prop} {Q : α → Prop}

theorem ensures_ret {a : α} (ha : Q a) : (Program.ret a : Program S ε α).Ensures h Q := by
  intro s b s' hrun
  cases hrun
  exact ha

theorem ensures_raise (e : ε) : (Program.raise e : Program S ε α).Ensures h Q := by
  intro s a s' hrun
  cases hrun

theorem ensures_mono {Q' : α → Prop} {p : Program S ε α} (hp : p.Ensures h Q)
    (weaker : ∀ a, Q a → Q' a) : p.Ensures h Q' :=
  fun s a s' hrun => weaker a (hp s a s' hrun)

theorem ensures_true (p : Program S ε α) : p.Ensures h fun _ => True :=
  fun _ _ _ _ => trivial

theorem ensures_bind {p : Program S ε β} {f : β → Program S ε α} (hp : p.Ensures h P)
    (hf : ∀ b, P b → (f b).Ensures h Q) : (p >>= f).Ensures h Q := by
  intro s a s'' hrun
  rw [run_bind] at hrun
  match hb : p.run h s, hrun with
  | (.ok b, s'), hrun => exact hf b (hp s b s' hb) s' a s'' hrun

/-- A step nothing is known of. -/
theorem ensures_step {p : Program S ε β} {f : β → Program S ε α}
    (hf : ∀ b, (f b).Ensures h Q) : (p >>= f).Ensures h Q :=
  ensures_bind (ensures_true p) (fun b _ => hf b)

theorem ensures_ite {c : Prop} [Decidable c] {p q : Program S ε α}
    (hp : c → p.Ensures h Q) (hq : ¬ c → q.Ensures h Q) : (if c then p else q).Ensures h Q := by
  by_cases hc : c
  · rw [if_pos hc]
    exact hp hc
  · rw [if_neg hc]
    exact hq hc

theorem ensures_perform {op : S.Op} {Q : S.Res op → Prop}
    (answer : ∀ s r s', h op s = (.ok r, s') → Q r) :
    (perform op : Program S ε _).Ensures h Q := by
  intro s r s' hrun
  rw [run_perform] at hrun
  exact answer s r s' hrun

theorem ensures_ofExcept {r : Except ε α} (hr : ∀ a, r = .ok a → Q a) :
    (ofExcept r : Program S ε α).Ensures h Q := by
  intro s a s' hrun
  rw [run_ofExcept] at hrun
  exact hr a (Prod.mk.inj hrun).1

theorem ensures_lift {r : Except ε α} (hr : ∀ a, r = .ok a → Q a) :
    (liftM r : Program S ε α).Ensures h Q :=
  ensures_ofExcept hr

/-- The value of a block survives its clean-up. -/
theorem ensures_tryFinally {p : Program S ε α} {cleanup : Program S ε Unit}
    (hp : p.Ensures h Q) : (p.tryFinally cleanup).Ensures h Q := by
  intro s a s' hrun
  rw [run_tryFinally] at hrun
  split at hrun
  · exact hp s a _ (Prod.ext (Prod.mk.inj hrun).1 rfl)
  · exact nomatch congrArg Prod.fst hrun

theorem ensures_tryCatch {p : Program S ε α} {handler : ε → Program S ε α}
    (hp : p.Ensures h Q) (hh : ∀ e, (handler e).Ensures h Q) :
    (p.tryCatch handler).Ensures h Q := by
  intro s a s' hrun
  rw [run_tryCatch] at hrun
  match hb : p.run h s, hrun with
  | (.ok b, s₁), hrun => exact hp s a s' (hb.trans hrun)
  | (.error e, s₁), hrun => exact hh e s₁ a s' hrun

theorem ensures_onRaise {p : Program S ε α} {cleanup : Program S ε Unit}
    (hp : p.Ensures h Q) : (p.onRaise cleanup).Ensures h Q :=
  ensures_tryCatch hp (fun e => ensures_step (fun _ => ensures_raise e))

/-- A loop keeps what each of its rounds keeps. -/
theorem ensures_foldlM {γ : Type} {I : List γ → α → Prop} {f : α → γ → Program S ε α} {init : α}
    (start : I [] init)
    (step : ∀ done x a, I done a → (f a x).Ensures h (I (done ++ [x]))) (xs : List γ) :
    (xs.foldlM f init).Ensures h (I xs) := by
  suffices loop : ∀ (xs done : List γ) (a : α), I done a →
      (xs.foldlM f a).Ensures h (I (done ++ xs)) from loop xs [] init start
  intro xs
  induction xs with
  | nil =>
      intro done a ha
      rw [List.append_nil]
      exact ensures_ret ha
  | cons x xs ih =>
      intro done a ha
      rw [List.foldlM_cons]
      refine ensures_bind (step done x a ha) ?_
      intro b hb
      simpa only [List.append_assoc, List.singleton_append] using ih (done ++ [x]) b hb

theorem ensures_mapM {γ : Type} {f : γ → Program S ε α} {xs : List γ} :
    (xs.mapM f).Ensures h fun ys => ys.length = xs.length := by
  induction xs with
  | nil => exact ensures_ret rfl
  | cons x xs ih =>
      rw [List.mapM_cons]
      refine ensures_step fun y => ensures_bind ih fun ys hys => ensures_ret ?_
      rw [List.length_cons, List.length_cons, hys]

/-! ### The calls of a program

A handler matters to a program only at the calls the program makes. -/

/-- Whatever is answered, every call of the program satisfies `C`. -/
def Calls (C : S.Op → Prop) : Program S ε α → Prop
  | .ret _ => True
  | .raise _ => True
  | .call op next => C op ∧ ∀ r, (next r).Calls C

variable {C : S.Op → Prop}

theorem calls_mono {C' : S.Op → Prop} {p : Program S ε α} (made : p.Calls C)
    (weaker : ∀ op, C op → C' op) : p.Calls C' := by
  induction p with
  | ret => trivial
  | raise => trivial
  | call op next ih => exact ⟨weaker op made.1, fun r => ih r (made.2 r)⟩

theorem calls_perform {op : S.Op} (made : C op) :
    (perform op : Program S ε _).Calls C := by
  refine ⟨made, fun r => ?_⟩
  cases r <;> exact trivial

theorem calls_lift (r : Except ε α) : (liftM r : Program S ε α).Calls C := by
  cases r <;> exact trivial

theorem calls_bind {p : Program S ε β} {f : β → Program S ε α} (hp : p.Calls C)
    (hf : ∀ b, (f b).Calls C) : (p >>= f).Calls C := by
  induction p with
  | ret b => exact hf b
  | raise e => exact trivial
  | call op next ih => exact ⟨hp.1, fun r => ih r (hp.2 r)⟩

theorem calls_ite {c : Prop} [Decidable c] {p q : Program S ε α}
    (hp : c → p.Calls C) (hq : ¬ c → q.Calls C) : (if c then p else q).Calls C := by
  by_cases hc : c
  · rw [if_pos hc]
    exact hp hc
  · rw [if_neg hc]
    exact hq hc

theorem calls_mapM {γ : Type} {f : γ → Program S ε α} (hf : ∀ x, (f x).Calls C) (xs : List γ) :
    (xs.mapM f).Calls C := by
  induction xs with
  | nil => exact trivial
  | cons x xs ih =>
      rw [List.mapM_cons]
      exact calls_bind (hf x) fun _ => calls_bind ih fun _ => trivial

theorem calls_foldlM {f : α → γ → Program S ε α} (hf : ∀ a x, (f a x).Calls C) (xs : List γ)
    (a : α) : (xs.foldlM f a).Calls C := by
  induction xs generalizing a with
  | nil => exact trivial
  | cons x xs ih =>
      rw [List.foldlM_cons]
      exact calls_bind (hf a x) ih

theorem calls_tryCatch {p : Program S ε α} {handler : ε → Program S ε α} (hp : p.Calls C)
    (hh : ∀ e, (handler e).Calls C) : (p.tryCatch handler).Calls C := by
  induction p with
  | ret => trivial
  | raise e => exact hh e
  | call op next ih => exact ⟨hp.1, fun r => ih r (hp.2 r)⟩

theorem calls_onRaise {p : Program S ε α} {cleanup : Program S ε Unit} (hp : p.Calls C)
    (hc : cleanup.Calls C) : (p.onRaise cleanup).Calls C := by
  induction p with
  | ret => trivial
  | raise e => exact calls_bind hc fun _ => trivial
  | call op next ih => exact ⟨hp.1, fun r => ih r (hp.2 r)⟩

theorem calls_tryFinally {p : Program S ε α} {cleanup : Program S ε Unit} (hp : p.Calls C)
    (hc : cleanup.Calls C) : (p.tryFinally cleanup).Calls C := by
  induction p with
  | ret a => exact calls_bind hc fun _ => trivial
  | raise e => exact calls_bind hc fun _ => trivial
  | call op next ih => exact ⟨hp.1, fun r => ih r (hp.2 r)⟩

theorem calls_attempt {p : Program S ε α} (hp : p.Calls C) : p.attempt.Calls C := by
  induction p with
  | ret a => trivial
  | raise e => trivial
  | call op next ih => exact ⟨hp.1, fun r => ih r (hp.2 r)⟩

section TwoHandlers

variable {h h' : Handler S ε σ} (same : ∀ op, C op → h' op = h op)

include same

/-- Handlers that answer the calls of a program alike run it alike. -/
theorem run_congr {p : Program S ε α} (made : p.Calls C) (s : σ) : p.run h' s = p.run h s := by
  induction p generalizing s with
  | ret a => rfl
  | raise e => rfl
  | call op next ih =>
      rw [run_call, run_call, same op made.1]
      exact ih _ (made.2 _) _

omit same

/-- Under two handlers the program runs alike, or leaves the same state with outcomes that are
related by `D`. -/
def Alike (h h' : Handler S ε σ) (D : Except ε α → Except ε α → Prop) (p : Program S ε α) :
    Prop :=
  ∀ s, p.run h' s = p.run h s ∨ ∃ x y s', p.run h s = (x, s') ∧ p.run h' s = (y, s') ∧ D x y

/-- Two values that are related by `R`. -/
def BothOk (R : α → α → Prop) (x y : Except ε α) : Prop :=
  ∃ a b, x = .ok a ∧ y = .ok b ∧ R a b

variable {D : Except ε α → Except ε α → Prop}

theorem alike_ret (a : α) : (Program.ret a : Program S ε α).Alike h h' D := fun _ => .inl rfl

theorem alike_mono {D' : Except ε α → Except ε α → Prop} {p : Program S ε α}
    (hp : p.Alike h h' D) (weaker : ∀ x y, D x y → D' x y) : p.Alike h h' D' := by
  intro s
  rcases hp s with alike | ⟨x, y, s', hrun, hrun', related⟩
  · exact .inl alike
  · exact .inr ⟨x, y, s', hrun, hrun', weaker x y related⟩

theorem alike_ite {c : Prop} [Decidable c] {p q : Program S ε α}
    (hp : c → p.Alike h h' D) (hq : ¬ c → q.Alike h h' D) : (if c then p else q).Alike h h' D := by
  by_cases hc : c
  · rw [if_pos hc]
    exact hp hc
  · rw [if_neg hc]
    exact hq hc

theorem alike_lift {r : Except ε β} {f : β → Program S ε α}
    (hf : ∀ b, r = .ok b → (f b).Alike h h' D) :
    ((liftM r : Program S ε β) >>= f).Alike h h' D := by
  cases r with
  | ok b => exact hf b rfl
  | error e => exact fun _ => .inl rfl

include same

theorem alike_bind {p : Program S ε β} {f : β → Program S ε α} {Q : β → Prop} (made : p.Calls C)
    (hp : p.Ensures h Q) (hf : ∀ b, Q b → (f b).Alike h h' D) : (p >>= f).Alike h h' D := by
  intro s
  rw [run_bind, run_bind, run_congr same made s]
  match hrun : p.run h s with
  | (.ok b, s') => exact hf b (hp s b s' hrun) s'
  | (.error e, s') => exact .inl rfl

theorem alike_step {p : Program S ε β} {f : β → Program S ε α} (made : p.Calls C)
    (hf : ∀ b, (f b).Alike h h' D) : (p >>= f).Alike h h' D :=
  alike_bind same made (ensures_true p) fun b _ => hf b

/-- A block whose values may differ is cleaned up alike. -/
theorem alike_onRaise {R : α → α → Prop} {p : Program S ε α} {cleanup : Program S ε Unit}
    (hp : p.Alike h h' (BothOk R)) (made : cleanup.Calls C) :
    (p.onRaise cleanup).Alike h h' (BothOk R) := by
  intro s
  rw [onRaise, run_tryCatch, run_tryCatch]
  rcases hp s with alike | ⟨_, _, s', hrun, hrun', a, b, rfl, rfl, hR⟩
  · rw [alike]
    match p.run h s with
    | (.ok a, s') => exact .inl rfl
    | (.error e, s') =>
        have again : (cleanup >>= fun _ => (.raise e : Program S ε α)).Calls C :=
          calls_bind made fun _ => trivial
        exact .inl (run_congr same again s')
  · rw [hrun, hrun']
    exact .inr ⟨_, _, s', rfl, rfl, a, b, rfl, rfl, hR⟩

/-- What follows a block whose values may differ. -/
theorem alike_seq {R : β → β → Prop} {p : Program S ε β} {f : β → Program S ε α}
    (hp : p.Alike h h' (BothOk R)) (made : ∀ b, (f b).Calls C)
    (hf : ∀ a b, R a b → ∀ s, (f b).run h s = (f a).run h s ∨
      ∃ x y s', (f a).run h s = (x, s') ∧ (f b).run h s = (y, s') ∧ D x y) :
    (p >>= f).Alike h h' D := by
  intro s
  rw [run_bind, run_bind]
  rcases hp s with alike | ⟨_, _, s', hrun, hrun', a, b, rfl, rfl, hR⟩
  · rw [alike]
    match p.run h s with
    | (.ok a, s') => exact .inl (run_congr same (made a) s')
    | (.error e, s') => exact .inl rfl
  · rw [hrun, hrun']
    change (f b).run h' s' = (f a).run h s' ∨
      ∃ x y t, (f a).run h s' = (x, t) ∧ (f b).run h' s' = (y, t) ∧ D x y
    rw [run_congr same (made b)]
    exact hf a b hR s'

end TwoHandlers

end Program

end Effect
