import AcojWorker.Effect.Program
import Mathlib.Algebra.BigOperators.Group.Multiset.Basic

/-!
# Traces, and what a program owes when it is left

A run of a program is a list of calls with their answers. Which lists a program yields does
not depend on a world: any answers make a trace, and the answers of a world make one of them.

Some calls open a resource and some close one. What a program holds when it is left, by a
value or by an exception, is what it held before and opened less what it closed; the rules
below add that up along the program.
-/

namespace Effect

/-- A call and its answer. -/
structure Event (S : Signature) (ε : Type) where
  op : S.Op
  answer : Except ε (S.Res op)

def Event.raised {S : Signature} {ε : Type} (e : Event S ε) : Bool := !e.answer.isOk

abbrev Trace (S : Signature) (ε : Type) : Type := List (Event S ε)

namespace Program

variable {S : Signature} {ε α β σ : Type}

/-- The program may make these calls, get these answers, and come to this outcome. -/
inductive Yields : Program S ε α → Trace S ε → Except ε α → Prop where
  | ret (a : α) : Yields (.ret a) [] (.ok a)
  | raise (e : ε) : Yields (.raise e) [] (.error e)
  | call {op : S.Op} {next : Except ε (S.Res op) → Program S ε α} {t : Trace S ε}
      {out : Except ε α} (r : Except ε (S.Res op)) (rest : Yields (next r) t out) :
      Yields (.call op next) (⟨op, r⟩ :: t) out

/-- The trace of a run. -/
def trace (h : Handler S ε σ) : Program S ε α → σ → Trace S ε
  | .ret _, _ => []
  | .raise _, _ => []
  | .call op next, s => ⟨op, (h op s).1⟩ :: (next (h op s).1).trace h (h op s).2

theorem yields_trace (h : Handler S ε σ) (p : Program S ε α) (s : σ) :
    p.Yields (p.trace h s) (p.run h s).1 := by
  induction p generalizing s with
  | ret a => exact .ret a
  | raise e => exact .raise e
  | call op next ih => exact .call _ (ih _ _)

/-! ### Traces of composed programs -/

theorem yields_lift {r : Except ε α} {t : Trace S ε} {out : Except ε α}
    (h : (liftM r : Program S ε α).Yields t out) : t = [] ∧ out = r := by
  cases r with
  | ok a =>
      cases h
      exact ⟨rfl, rfl⟩
  | error e =>
      cases h
      exact ⟨rfl, rfl⟩

theorem yields_perform {op : S.Op} {t : Trace S ε} {out : Except ε (S.Res op)}
    (h : (perform op : Program S ε _).Yields t out) : t = [⟨op, out⟩] := by
  cases h with
  | call r rest =>
      cases r <;>
      · cases rest
        rfl

theorem yields_bind {p : Program S ε β} {f : β → Program S ε α} {t : Trace S ε}
    {out : Except ε α} (h : (p >>= f).Yields t out) :
    (∃ e, p.Yields t (.error e) ∧ out = .error e) ∨
      ∃ b t₁ t₂, p.Yields t₁ (.ok b) ∧ (f b).Yields t₂ out ∧ t = t₁ ++ t₂ := by
  induction p generalizing t with
  | ret b => exact .inr ⟨b, [], t, .ret b, h, rfl⟩
  | raise e =>
      cases h
      exact .inl ⟨e, .raise e, rfl⟩
  | call op next ih =>
      cases h with
      | call r rest =>
          obtain ⟨e, he, hout⟩ | ⟨b, t₁, t₂, hb, hf, rfl⟩ := ih r rest
          · exact .inl ⟨e, .call r he, hout⟩
          · exact .inr ⟨b, _, t₂, .call r hb, hf, rfl⟩

theorem yields_onRaise {p : Program S ε α} {cleanup : Program S ε Unit} {t : Trace S ε}
    {out : Except ε α} (h : (p.onRaise cleanup).Yields t out) :
    (∃ a, p.Yields t (.ok a) ∧ out = .ok a) ∨
      ∃ e t₁ t₂ done, p.Yields t₁ (.error e) ∧ cleanup.Yields t₂ done ∧ t = t₁ ++ t₂ ∧
        ∃ e, out = .error e := by
  induction p generalizing t with
  | ret a =>
      cases h
      exact .inl ⟨a, .ret a, rfl⟩
  | raise e =>
      obtain ⟨e', he, rfl⟩ | ⟨_, t₁, t₂, hc, hr, rfl⟩ := yields_bind h
      · exact .inr ⟨e, [], t, _, .raise e, he, rfl, e', rfl⟩
      · cases hr
        exact .inr ⟨e, [], t₁, _, .raise e, hc, (List.append_nil t₁), e, rfl⟩
  | call op next ih =>
      cases h with
      | call r rest =>
          obtain ⟨a, ha, hout⟩ | ⟨e, t₁, t₂, done, he, hc, rfl, hout⟩ := ih r rest
          · exact .inl ⟨a, .call r ha, hout⟩
          · exact .inr ⟨e, _, t₂, done, .call r he, hc, rfl, hout⟩

theorem yields_tryCatch {p : Program S ε α} {handler : ε → Program S ε α} {t : Trace S ε}
    {out : Except ε α} (h : (p.tryCatch handler).Yields t out) :
    (∃ a, p.Yields t (.ok a) ∧ out = .ok a) ∨
      ∃ e t₁ t₂, p.Yields t₁ (.error e) ∧ (handler e).Yields t₂ out ∧ t = t₁ ++ t₂ := by
  induction p generalizing t with
  | ret a =>
      cases h
      exact .inl ⟨a, .ret a, rfl⟩
  | raise e => exact .inr ⟨e, [], t, .raise e, h, rfl⟩
  | call op next ih =>
      cases h with
      | call r rest =>
          obtain ⟨a, ha, hout⟩ | ⟨e, t₁, t₂, he, hh, rfl⟩ := ih r rest
          · exact .inl ⟨a, .call r ha, hout⟩
          · exact .inr ⟨e, _, t₂, .call r he, hh, rfl⟩

theorem yields_attempt {p : Program S ε α} {t : Trace S ε} {out : Except ε (Except ε α)}
    (h : p.attempt.Yields t out) : ∃ outcome, out = .ok outcome ∧ p.Yields t outcome := by
  induction p generalizing t with
  | ret a =>
      cases h
      exact ⟨.ok a, rfl, .ret a⟩
  | raise e =>
      cases h
      exact ⟨.error e, rfl, .raise e⟩
  | call op next ih =>
      cases h with
      | call r rest =>
          obtain ⟨outcome, hout, inner⟩ := ih r rest
          exact ⟨outcome, hout, .call r inner⟩

/-- Every round of a loop that ends leaves its part in the trace. -/
theorem yields_foldlM {γ : Type} {f : α → γ → Program S ε α} {xs : List γ} {a b : α}
    {t : Trace S ε} (h : (xs.foldlM f a).Yields t (.ok b)) :
    ∀ x ∈ xs, ∃ a' b' t', (f a' x).Yields t' (.ok b') ∧ t' ⊆ t := by
  induction xs generalizing a t with
  | nil => exact nofun
  | cons y xs ih =>
      rw [List.foldlM_cons] at h
      obtain ⟨e, _, hout⟩ | ⟨a₁, t₁, t₂, first, rest, rfl⟩ := yields_bind h
      · cases hout
      · intro x hx
        obtain rfl | hx := List.mem_cons.mp hx
        · exact ⟨a, a₁, t₁, first, List.subset_append_left t₁ t₂⟩
        · obtain ⟨a', b', t', round, inside⟩ := ih rest x hx
          exact ⟨a', b', t', round, fun e he => List.mem_append_right t₁ (inside he)⟩

theorem yields_calls {C : S.Op → Prop} {p : Program S ε α} {t : Trace S ε} {out : Except ε α}
    (h : p.Yields t out) (made : p.Calls C) : ∀ e ∈ t, C e.op := by
  induction h with
  | ret => exact nofun
  | raise => exact nofun
  | call r _ ih =>
      rintro e he
      rcases List.mem_cons.mp he with rfl | he
      · exact made.1
      · exact ih (made.2 r) e he

end Program

/-! ### Resources -/

/-- What a call opens and closes, depending on its answer, and which answers are expected. -/
structure Ledger (S : Signature) (ε ρ : Type) where
  opens : Event S ε → Multiset ρ
  closes : Event S ε → Multiset ρ
  expected : Event S ε → Prop

namespace Ledger

variable {S : Signature} {ε ρ α β : Type} (L : Ledger S ε ρ)

def opened (t : Trace S ε) : Multiset ρ := (t.map L.opens).sum

def closed (t : Trace S ε) : Multiset ρ := (t.map L.closes).sum

/-- Everything the calls opened they closed, each as often as it was opened. -/
def Released (t : Trace S ε) : Prop := L.opened t = L.closed t

instance [DecidableEq ρ] (t : Trace S ε) : Decidable (L.Released t) :=
  inferInstanceAs (Decidable (_ = _))

def Expected (t : Trace S ε) : Prop := ∀ e ∈ t, L.expected e

variable {L}

@[simp] theorem opened_append (t₁ t₂ : Trace S ε) :
    L.opened (t₁ ++ t₂) = L.opened t₁ + L.opened t₂ := by
  simp [opened]

@[simp] theorem closed_append (t₁ t₂ : Trace S ε) :
    L.closed (t₁ ++ t₂) = L.closed t₁ + L.closed t₂ := by
  simp [closed]

theorem expected_append {t₁ t₂ : Trace S ε} :
    L.Expected (t₁ ++ t₂) ↔ L.Expected t₁ ∧ L.Expected t₂ :=
  List.forall_mem_append

/-- What the second part of a trace starts with, the first part has left. -/
theorem sequel {t₁ t₂ : Trace S ε} {held mid rest : Multiset ρ}
    (first : L.opened t₁ + held = L.closed t₁ + mid)
    (second : L.opened t₂ + mid = L.closed t₂ + rest) :
    L.opened (t₁ ++ t₂) + held = L.closed (t₁ ++ t₂) + rest := by
  rw [opened_append, closed_append, add_right_comm, first, add_right_comm, add_assoc, second,
    add_assoc]

/-- What is held after an outcome. -/
def after (left : α → Multiset ρ) (lost : Multiset ρ) : Except ε α → Multiset ρ
  | .ok a => left a
  | .error _ => lost

variable (L)

/-- Started with `held`, the program holds `left a` when it returns `a`, and `lost` when it
raises an exception. -/
def Accounts (held : Multiset ρ) (p : Program S ε α) (left : α → Multiset ρ)
    (lost : Multiset ρ) : Prop :=
  ∀ t out, p.Yields t out → L.Expected t →
    L.opened t + held = L.closed t + after left lost out

variable {L} {held lost : Multiset ρ} {left : α → Multiset ρ}

theorem accounts_ret {a : α} (h : held = left a) : L.Accounts held (.ret a) left lost := by
  rintro t out ⟨⟩ _
  rw [h]
  rfl

theorem accounts_lift {r : Except ε α} (h : ∀ a, r = .ok a → held = left a) :
    L.Accounts held (liftM r : Program S ε α) left held := by
  intro t out yields _
  obtain ⟨rfl, rfl⟩ := Program.yields_lift yields
  cases out with
  | ok a =>
      rw [h a rfl]
      rfl
  | error e => rfl

theorem accounts_perform {op : S.Op} {left : S.Res op → Multiset ρ}
    (answered : ∀ out, L.expected ⟨op, out⟩ →
      L.opens ⟨op, out⟩ + held = L.closes ⟨op, out⟩ + after left lost out) :
    L.Accounts held (Program.perform op) left lost := by
  intro t out yields expected
  obtain rfl := Program.yields_perform yields
  simp only [opened, closed, List.map_singleton, List.sum_singleton]
  exact answered out (expected _ (List.mem_singleton_self _))

/-- A call that neither opens nor closes anything. -/
theorem accounts_quiet {op : S.Op}
    (quiet : ∀ out, L.opens ⟨op, out⟩ = 0 ∧ L.closes ⟨op, out⟩ = 0) :
    L.Accounts held (Program.perform op) (fun _ => held) held := by
  refine accounts_perform fun out _ => ?_
  rw [(quiet out).1, (quiet out).2]
  cases out <;> rfl

theorem accounts_open {op : S.Op} {opening : S.Res op → Multiset ρ}
    (opened : ∀ r, L.opens ⟨op, .ok r⟩ = opening r ∧ L.closes ⟨op, .ok r⟩ = 0)
    (quiet : ∀ e, L.opens ⟨op, .error e⟩ = 0 ∧ L.closes ⟨op, .error e⟩ = 0) :
    L.Accounts held (Program.perform op) (fun r => opening r + held) held := by
  refine accounts_perform fun out _ => ?_
  cases out with
  | ok r =>
      rw [(opened r).1, (opened r).2, zero_add]
      rfl
  | error e =>
      rw [(quiet e).1, (quiet e).2]
      rfl

/-- Closing is not expected to fail, so nothing needs to be known of its failure. -/
theorem accounts_close {op : S.Op} {closing : Multiset ρ}
    (succeeds : ∀ e, ¬ L.expected ⟨op, .error e⟩)
    (closed : ∀ r, L.opens ⟨op, .ok r⟩ = 0 ∧ L.closes ⟨op, .ok r⟩ = closing) :
    L.Accounts (closing + held) (Program.perform op) (fun _ => held) lost := by
  refine accounts_perform fun out expected => ?_
  cases out with
  | ok r =>
      rw [(closed r).1, (closed r).2, zero_add]
      rfl
  | error e => exact absurd expected (succeeds e)

theorem accounts_bind {p : Program S ε β} {f : β → Program S ε α} {mid : β → Multiset ρ}
    (hp : L.Accounts held p mid lost) (hf : ∀ b, L.Accounts (mid b) (f b) left lost) :
    L.Accounts held (p >>= f) left lost := by
  intro t out yields expected
  obtain ⟨e, he, rfl⟩ | ⟨b, t₁, t₂, hb, hfb, rfl⟩ := Program.yields_bind yields
  · exact hp t _ he expected
  · obtain ⟨expected₁, expected₂⟩ := expected_append.mp expected
    exact sequel (hp t₁ _ hb expected₁) (hf b t₂ out hfb expected₂)

theorem accounts_ite {c : Prop} [Decidable c] {p q : Program S ε α}
    (hp : c → L.Accounts held p left lost) (hq : ¬ c → L.Accounts held q left lost) :
    L.Accounts held (if c then p else q) left lost := by
  by_cases hc : c
  · rw [if_pos hc]
    exact hp hc
  · rw [if_neg hc]
    exact hq hc

/-- The clean-up releases what the block held when it was left by an exception. -/
theorem accounts_onRaise {p : Program S ε α} {cleanup : Program S ε Unit} {kept : Multiset ρ}
    (hp : L.Accounts held p left kept) (hc : L.Accounts kept cleanup (fun _ => lost) lost) :
    L.Accounts held (p.onRaise cleanup) left lost := by
  intro t out yields expected
  obtain ⟨a, ha, rfl⟩ | ⟨e, t₁, t₂, done, he, hdone, rfl, e', rfl⟩ := Program.yields_onRaise yields
  · exact hp t _ ha expected
  · obtain ⟨expected₁, expected₂⟩ := expected_append.mp expected
    refine sequel (hp t₁ _ he expected₁) ((hc t₂ done hdone expected₂).trans ?_)
    cases done <;> rfl

end Ledger

end Effect
