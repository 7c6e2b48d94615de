import AcojWorker.Effect.Interleaving

/-!
# Runs of one thread at a time

A script answers the calls of a program, or refuses to. What it drives a program to, call by
call, is reached by a run in which no other thread is at work; so concrete runs of a pool are
found by evaluation.
-/

namespace Effect

/-- Answers to calls, each with the state it leaves; a call may have no answer. -/
abbrev Script (S : Signature) (ε σ : Type) : Type :=
  (op : S.Op) → σ → Option (Except ε (S.Res op) × σ)

variable {S : Signature} {ε σ α : Type}

/-- Only calls that pass are answered. -/
def Script.guarded (script : Script S ε σ) (pass : S.Op → σ → Bool) : Script S ε σ :=
  fun op s => if pass op s then script op s else none

/-- The program and the state at the first call to stop at, or else at the end. -/
def Program.advance (script : Script S ε σ) (stop : S.Op → Bool) :
    Program S ε α → σ → Option (Program S ε α × σ)
  | .ret a, s => some (.ret a, s)
  | .raise e, s => some (.raise e, s)
  | .call op next, s =>
      if stop op then some (.call op next, s)
      else match script op s with
        | some (r, s') => (next r).advance script stop s'
        | none => none

/-- The state at the end of a program. -/
def Program.complete (script : Script S ε σ) (p : Program S ε α) (s : σ) : Option σ :=
  (p.advance script (fun _ => false) s).map Prod.snd

/-- A script that answers as the machine does, and only calls that are allowed. -/
def Script.Follows (script : Script S ε σ) (m : Machine S ε σ)
    (allowed : Nat → S.Op → σ → Prop) (t : Nat) : Prop :=
  ∀ op s r s', script op s = some (r, s') → allowed t op s ∧ m.exec t op s r s'

/-- A pool in which one thread is at work. -/
def Pool.single (t : Nat) (p : Program S ε Unit) (s : σ) : Pool S ε σ :=
  ⟨Function.update (fun _ => none) t (some p), s⟩

theorem Pool.single_threads (t : Nat) (p : Program S ε Unit) (s : σ) :
    (Pool.single t p s).threads t = some p := by
  simp [Pool.single]

/-- A thread gets from one program and state to another by calls that may be answered so. -/
inductive Pool.Leads (m : Machine S ε σ) (t : Nat) :
    Program S ε Unit → σ → Program S ε Unit → σ → Prop where
  | here {p : Program S ε Unit} {s : σ} : Leads m t p s p s
  | call {op : S.Op} {next : Except ε (S.Res op) → Program S ε Unit} {q : Program S ε Unit}
      {s s' s'' : σ} {r : Except ε (S.Res op)} (h : m.exec t op s r s')
      (rest : Leads m t (next r) s' q s'') : Leads m t (.call op next) s q s''

section Runs

variable {m : Machine S ε σ} {starts : Program S ε Unit → Prop} {allowed : Nat → S.Op → σ → Prop}
  {t : Nat} {script : Script S ε σ} {stop : S.Op → Bool} {s₀ s s' : σ} {p q : Program S ε Unit}

theorem guarded_follows {pass : S.Op → σ → Bool}
    (exec : ∀ op s r s', script op s = some (r, s') → m.exec t op s r s')
    (passes : ∀ op s, pass op s = true → allowed t op s) :
    (script.guarded pass).Follows m allowed t := by
  intro op s r s' h
  rw [Script.guarded] at h
  split at h
  · next passed => exact ⟨passes op s passed, exec op s r s' h⟩
  · exact nomatch h

theorem steps_advance (follows : script.Follows m allowed t)
    (h : p.advance script stop s = some (q, s')) :
    Relation.ReflTransGen (Pool.Step m starts allowed) (Pool.single t p s)
      (Pool.single t q s') := by
  induction p generalizing s with
  | ret a =>
      cases h
      exact .refl
  | raise e =>
      cases h
      exact .refl
  | call op next ih =>
      rw [Program.advance] at h
      split at h
      · cases h
        exact .refl
      · split at h
        · next r s₁ answer =>
            obtain ⟨ok, exec⟩ := follows op s r s₁ answer
            have step : Pool.Step m starts allowed (Pool.single t (.call op next) s)
                ⟨Function.update (Function.update (fun _ => none) t (some (.call op next))) t
                  (some (next r)), s₁⟩ := .call t (Function.update_self ..) ok exec
            rw [Function.update_idem] at step
            exact .head step (ih r h)
        · exact nomatch h

theorem reachable_advance (follows : script.Follows m allowed t) (start : starts p)
    (idle : Pool.Reachable m starts allowed s₀ ⟨fun _ => none, s⟩)
    (h : p.advance script stop s = some (q, s')) :
    Pool.Reachable m starts allowed s₀ (Pool.single t q s') :=
  (idle.tail (.start t rfl start)).trans (steps_advance follows h)

theorem advance_done {p q : Program S ε α}
    (h : p.advance script (fun _ => false) s = some (q, s')) :
    (∃ a, q = .ret a) ∨ ∃ e, q = .raise e := by
  induction p generalizing s with
  | ret a =>
      cases h
      exact .inl ⟨a, rfl⟩
  | raise e =>
      cases h
      exact .inr ⟨e, rfl⟩
  | call op next ih =>
      simp only [Program.advance, Bool.false_eq_true, if_false] at h
      split at h
      · next r s₁ answer => exact ih r h
      · exact nomatch h

/-- A thread that has come to its end leaves. -/
theorem reachable_end (run : Pool.Reachable m starts allowed s₀ (Pool.single t q s))
    (done : (∃ a, q = .ret a) ∨ ∃ e, q = .raise e) :
    Pool.Reachable m starts allowed s₀ ⟨fun _ => none, s⟩ := by
  have rest : Function.update (Function.update (fun _ => none) t (some q)) t none =
      (fun _ => none : Nat → Option (Program S ε Unit)) := by
    rw [Function.update_idem, Function.update_eq_self_iff]
  rw [← rest]
  rcases done with ⟨_, rfl⟩ | ⟨e, rfl⟩
  · exact run.tail (.finish t (Function.update_self ..))
  · exact run.tail (.fail t (Function.update_self ..))

/-- After a program no thread is at work. -/
theorem reachable_complete (follows : script.Follows m allowed t) (start : starts p)
    (idle : Pool.Reachable m starts allowed s₀ ⟨fun _ => none, s⟩)
    (h : p.complete script s = some s') :
    Pool.Reachable m starts allowed s₀ ⟨fun _ => none, s'⟩ := by
  obtain ⟨⟨q, s₁⟩, hadvance, rfl⟩ := Option.map_eq_some_iff.mp h
  exact reachable_end (reachable_advance follows start idle hadvance) (advance_done hadvance)

/-- What the answers of a script keep. -/
theorem advance_keeps {I : σ → Prop} (keeps : ∀ op s r s', I s → script op s = some (r, s') → I s')
    (before : I s) (h : p.advance script stop s = some (q, s')) : I s' := by
  induction p generalizing s with
  | ret a =>
      cases h
      exact before
  | raise e =>
      cases h
      exact before
  | call op next ih =>
      rw [Program.advance] at h
      split at h
      · cases h
        exact before
      · split at h
        · next r s₁ answer => exact ih r (keeps op s r s₁ before answer) h
        · exact nomatch h

theorem reachable_drift (idle : Pool.Reachable m starts allowed s₀ ⟨fun _ => none, s⟩)
    (h : m.drift s s') : Pool.Reachable m starts allowed s₀ ⟨fun _ => none, s'⟩ :=
  idle.tail (.drift h)

theorem Pool.Leads.trans {q' : Program S ε Unit} {s'' : σ} (leads : Pool.Leads m t p s q s')
    (further : Pool.Leads m t q s' q' s'') : Pool.Leads m t p s q' s'' := by
  induction leads with
  | here => exact further
  | call h _ ih => exact .call h (ih further)

/-- The other threads wait. -/
theorem steps_leads (leads : Pool.Leads m t p s q s') (threads : Nat → Option (Program S ε Unit)) :
    Relation.ReflTransGen (Pool.Step m starts fun _ _ _ => True)
      ⟨Function.update threads t (some p), s⟩ ⟨Function.update threads t (some q), s'⟩ := by
  induction leads with
  | here => exact .refl
  | @call op next q s s' s'' r h _ ih =>
      have step : Pool.Step m starts (fun _ _ _ => True)
          ⟨Function.update threads t (some (.call op next)), s⟩
          ⟨Function.update (Function.update threads t (some (.call op next))) t
            (some (next r)), s'⟩ := .call t (Function.update_self ..) trivial h
      rw [Function.update_idem] at step
      exact .head step ih

/-- Another thread sets out. -/
theorem reachable_leads {c : Pool S ε σ} (run : Pool.Reachable m starts (fun _ _ _ => True) s₀ c)
    (idle : c.threads t = none) (start : starts p) (leads : Pool.Leads m t p c.state q s') :
    ∃ c', Pool.Reachable m starts (fun _ _ _ => True) s₀ c' ∧ c'.threads t = some q ∧
      c'.state = s' ∧ ∀ u, u ≠ t → c'.threads u = c.threads u :=
  ⟨⟨Function.update c.threads t (some q), s'⟩,
    (run.tail (.start t idle start)).trans (steps_leads leads c.threads),
    Function.update_self .., rfl, fun _ other => Function.update_of_ne other ..⟩

end Runs

end Effect
