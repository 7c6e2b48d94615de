import AcojWorker.Effect.Trace
import AcojWorker.Effect.Sequential

/-!
# Programs on their own

A program performed while no other thread is at work: its calls are answered by the machine one
after the other, and only the drift comes between them. The calls with their answers are kept,
since what a program did is often said in terms of what it was told.

Such runs are a special case of the interleaved ones, so the rules of the disciplines prove
what holds after them.
-/

namespace Effect

variable {S : Signature} {ε σ α β : Type}

/-- The machine gives these answers to these calls of one thread. -/
inductive Machine.Plays (m : Machine S ε σ) (t : Nat) : σ → Trace S ε → σ → Prop where
  | done {s : σ} : Plays m t s [] s
  | drift {s s' s'' : σ} {τ : Trace S ε} (h : m.drift s s') (rest : Plays m t s' τ s'') :
      Plays m t s τ s''
  | call {op : S.Op} {r : Except ε (S.Res op)} {s s' s'' : σ} {τ : Trace S ε}
      (h : m.exec t op s r s') (rest : Plays m t s' τ s'') : Plays m t s (⟨op, r⟩ :: τ) s''

/-- Thread `t` performs the program alone, from `s` to `s'`, with this outcome. -/
def Program.Performs (m : Machine S ε σ) (t : Nat) (p : Program S ε α) (s : σ) (τ : Trace S ε)
    (out : Except ε α) (s' : σ) : Prop :=
  p.Yields τ out ∧ m.Plays t s τ s'

section Inversion

variable {m : Machine S ε σ} {t : Nat} {s s' : σ} {τ : Trace S ε}

theorem plays_nil (h : m.Plays t s [] s') : Relation.ReflTransGen m.drift s s' := by
  generalize hτ : ([] : Trace S ε) = τ at h
  induction h with
  | done => exact .refl
  | drift h _ ih => exact .head h (ih hτ)
  | call => cases hτ

theorem plays_cons {e : Event S ε} (h : m.Plays t s (e :: τ) s') :
    ∃ s₁ s₂, Relation.ReflTransGen m.drift s s₁ ∧ m.exec t e.op s₁ e.answer s₂ ∧
      m.Plays t s₂ τ s' := by
  generalize hτ : e :: τ = events at h
  induction h with
  | done => cases hτ
  | drift h _ ih =>
      obtain ⟨s₁, s₂, before, exec, rest⟩ := ih hτ
      exact ⟨s₁, s₂, .head h before, exec, rest⟩
  | call h rest =>
      cases hτ
      exact ⟨_, _, .refl, h, rest⟩

variable {out : Except ε α}

theorem performs_ret {a : α} (h : (Program.ret a).Performs m t s τ out s') :
    τ = [] ∧ out = .ok a ∧ Relation.ReflTransGen m.drift s s' := by
  obtain ⟨yields, plays⟩ := h
  cases yields
  exact ⟨rfl, rfl, plays_nil plays⟩

theorem performs_raise {e : ε} (h : (Program.raise e : Program S ε α).Performs m t s τ out s') :
    τ = [] ∧ out = .error e ∧ Relation.ReflTransGen m.drift s s' := by
  obtain ⟨yields, plays⟩ := h
  cases yields
  exact ⟨rfl, rfl, plays_nil plays⟩

theorem performs_call {op : S.Op} {next : Except ε (S.Res op) → Program S ε α}
    (h : (Program.call op next).Performs m t s τ out s') :
    ∃ s₁ r s₂ rest, Relation.ReflTransGen m.drift s s₁ ∧ m.exec t op s₁ r s₂ ∧
      τ = ⟨op, r⟩ :: rest ∧ (next r).Performs m t s₂ rest out s' := by
  obtain ⟨yields, plays⟩ := h
  cases yields with
  | call r tail =>
      obtain ⟨s₁, s₂, before, exec, rest⟩ := plays_cons plays
      exact ⟨s₁, r, s₂, _, before, exec, rfl, tail, rest⟩

theorem plays_append {τ₁ τ₂ : Trace S ε} (h : m.Plays t s (τ₁ ++ τ₂) s') :
    ∃ s₁, m.Plays t s τ₁ s₁ ∧ m.Plays t s₁ τ₂ s' := by
  generalize hτ : τ₁ ++ τ₂ = τ at h
  induction h generalizing τ₁ with
  | @done s =>
      obtain ⟨rfl, rfl⟩ := List.append_eq_nil_iff.mp hτ
      exact ⟨s, .done, .done⟩
  | drift step _ ih =>
      obtain ⟨s₁, first, second⟩ := ih hτ
      exact ⟨s₁, .drift step first, second⟩
  | call step rest ih =>
      rcases List.append_eq_cons_iff.mp hτ with ⟨rfl, rfl⟩ | ⟨τ₁, rfl, rfl⟩
      · exact ⟨_, .done, .call step rest⟩
      · obtain ⟨s₁, first, second⟩ := ih rfl
        exact ⟨s₁, .call step first, second⟩

theorem performs_bind {p : Program S ε β} {f : β → Program S ε α}
    (h : (p >>= f).Performs m t s τ out s') :
    (∃ e, p.Performs m t s τ (.error e) s' ∧ out = .error e) ∨
      ∃ b τ₁ τ₂ s₁, p.Performs m t s τ₁ (.ok b) s₁ ∧ (f b).Performs m t s₁ τ₂ out s' ∧
        τ = τ₁ ++ τ₂ := by
  obtain ⟨yields, plays⟩ := h
  obtain ⟨e, raised, rfl⟩ | ⟨b, τ₁, τ₂, first, second, rfl⟩ := Program.yields_bind yields
  · exact .inl ⟨e, ⟨raised, plays⟩, rfl⟩
  · obtain ⟨s₁, before, after⟩ := plays_append plays
    exact .inr ⟨b, τ₁, τ₂, s₁, ⟨first, before⟩, ⟨second, after⟩, rfl⟩

/-- The first part of a program, if it raises nothing. -/
theorem performs_step {p : Program S ε β} {f : β → Program S ε α}
    (h : (p >>= f).Performs m t s τ out s')
    (returns : ∀ τ e s', ¬ p.Performs m t s τ (.error e) s') :
    ∃ b τ₁ τ₂ s₁, p.Performs m t s τ₁ (.ok b) s₁ ∧ (f b).Performs m t s₁ τ₂ out s' ∧
      τ = τ₁ ++ τ₂ := by
  rcases performs_bind h with ⟨e, raised, _⟩ | both
  · exact absurd raised (returns τ e s')
  · exact both

theorem performs_tryCatch {p : Program S ε α} {handler : ε → Program S ε α}
    (h : (p.tryCatch handler).Performs m t s τ out s') :
    (∃ a, p.Performs m t s τ (.ok a) s' ∧ out = .ok a) ∨
      ∃ e τ₁ τ₂ s₁, p.Performs m t s τ₁ (.error e) s₁ ∧
        (handler e).Performs m t s₁ τ₂ out s' ∧ τ = τ₁ ++ τ₂ := by
  obtain ⟨yields, plays⟩ := h
  obtain ⟨a, done, rfl⟩ | ⟨e, τ₁, τ₂, raised, handled, rfl⟩ := Program.yields_tryCatch yields
  · exact .inl ⟨a, ⟨done, plays⟩, rfl⟩
  · obtain ⟨s₁, before, after⟩ := plays_append plays
    exact .inr ⟨e, τ₁, τ₂, s₁, ⟨raised, before⟩, ⟨handled, after⟩, rfl⟩

theorem performs_attempt {p : Program S ε α} {out : Except ε (Except ε α)}
    (h : p.attempt.Performs m t s τ out s') :
    ∃ outcome, out = .ok outcome ∧ p.Performs m t s τ outcome s' := by
  obtain ⟨yields, plays⟩ := h
  obtain ⟨outcome, rfl, inner⟩ := Program.yields_attempt yields
  exact ⟨outcome, rfl, inner, plays⟩

theorem performs_lift {r : Except ε α} (h : (liftM r : Program S ε α).Performs m t s τ out s') :
    τ = [] ∧ out = r ∧ Relation.ReflTransGen m.drift s s' := by
  obtain ⟨yields, plays⟩ := h
  obtain ⟨rfl, rfl⟩ := Program.yields_lift yields
  exact ⟨rfl, rfl, plays_nil plays⟩

theorem performs_perform {op : S.Op} {out : Except ε (S.Res op)}
    (h : (Program.perform op).Performs m t s τ out s') :
    τ = [⟨op, out⟩] ∧ ∃ s₁ s₂, Relation.ReflTransGen m.drift s s₁ ∧ m.exec t op s₁ out s₂ ∧
      Relation.ReflTransGen m.drift s₂ s' := by
  obtain ⟨yields, plays⟩ := h
  obtain rfl := Program.yields_perform yields
  obtain ⟨s₁, s₂, before, exec, rest⟩ := plays_cons plays
  exact ⟨rfl, s₁, s₂, before, exec, plays_nil rest⟩

/-- A loop whose rounds compute `g`, in states related to the first one, computes its fold. -/
theorem performs_foldlM {γ : Type} {R : σ → σ → Prop} {f : α → γ → Program S ε α} {g : α → γ → α}
    {s₀ : σ} {xs : List γ} (drifts : ∀ s s', R s₀ s → Relation.ReflTransGen m.drift s s' → R s₀ s')
    (round : ∀ a, ∀ x ∈ xs, ∀ s τ out s', R s₀ s → (f a x).Performs m t s τ out s' →
      out = .ok (g a x) ∧ R s₀ s')
    {a : α} (before : R s₀ s) (h : (xs.foldlM f a).Performs m t s τ out s') :
    out = .ok (xs.foldl g a) ∧ R s₀ s' := by
  induction xs generalizing a s τ with
  | nil =>
      obtain ⟨-, rfl, run⟩ := performs_ret h
      exact ⟨rfl, drifts s s' before run⟩
  | cons x xs ih =>
      rw [List.foldlM_cons] at h
      have first := round a x (List.mem_cons_self ..)
      obtain ⟨e, raised, rfl⟩ | ⟨b, τ₁, τ₂, s₁, done, rest, rfl⟩ := performs_bind h
      · exact nomatch (first s τ _ s' before raised).1
      · obtain ⟨hb, after⟩ := first s τ₁ _ s₁ before done
        cases hb
        exact ih (fun a y hy => round a y (List.mem_cons_of_mem _ hy)) after rest

/-- A loop whose rounds return and keep an invariant of its state and accumulator. -/
theorem performs_foldlM_keeps {γ : Type} {I : α → σ → Prop} {f : α → γ → Program S ε α}
    {xs : List γ} (drifts : ∀ a s s', I a s → Relation.ReflTransGen m.drift s s' → I a s')
    (round : ∀ a, ∀ x ∈ xs, ∀ s τ out s', I a s → (f a x).Performs m t s τ out s' →
      ∃ b, out = .ok b ∧ I b s')
    {a : α} (before : I a s) (h : (xs.foldlM f a).Performs m t s τ out s') :
    ∃ b, out = .ok b ∧ I b s' := by
  induction xs generalizing a s τ with
  | nil =>
      obtain ⟨-, rfl, run⟩ := performs_ret h
      exact ⟨a, rfl, drifts a s s' before run⟩
  | cons x xs ih =>
      rw [List.foldlM_cons] at h
      have first := round a x (List.mem_cons_self ..)
      obtain ⟨b, τ₁, τ₂, s₁, done, rest, rfl⟩ := performs_step h fun τ e s' raised => by
        obtain ⟨b, impossible, -⟩ := first s τ _ s' before raised
        exact nomatch impossible
      obtain ⟨_, ⟨⟩, after⟩ := first s τ₁ _ s₁ before done
      exact ih (fun a y hy => round a y (List.mem_cons_of_mem _ hy)) after rest

end Inversion

/-! ### Scripted answers -/

/-- The outcome of a program, and the state it leaves, if all its calls are answered. -/
def Program.outcome (script : Script S ε σ) : Program S ε α → σ → Option (Except ε α × σ)
  | .ret a, s => some (.ok a, s)
  | .raise e, s => some (.error e, s)
  | .call op next, s =>
      match script op s with
      | some (r, s') => (next r).outcome script s'
      | none => none

/-- The calls with their answers, as far as they are answered. -/
def Program.transcript (script : Script S ε σ) : Program S ε α → σ → Trace S ε
  | .ret _, _ => []
  | .raise _, _ => []
  | .call op next, s =>
      match script op s with
      | some (r, s') => ⟨op, r⟩ :: (next r).transcript script s'
      | none => []

/-- A script may answer as the machine does in certain states only. -/
theorem performs_transcript {m : Machine S ε σ} {t : Nat} {script : Script S ε σ} {I : σ → Prop}
    (follows : ∀ op s r s', I s → script op s = some (r, s') → m.exec t op s r s' ∧ I s')
    {p : Program S ε α} {s s' : σ} {out : Except ε α} (inv : I s)
    (h : p.outcome script s = some (out, s')) :
    p.Performs m t s (p.transcript script s) out s' := by
  induction p generalizing s with
  | ret a =>
      cases h
      exact ⟨.ret a, .done⟩
  | raise e =>
      cases h
      exact ⟨.raise e, .done⟩
  | call op next ih =>
      rw [Program.outcome] at h
      rw [Program.transcript]
      split at h
      · next r s₁ answer =>
        obtain ⟨exec, inv₁⟩ := follows op s r s₁ inv answer
        obtain ⟨yields, plays⟩ := ih r inv₁ h
        exact ⟨.call r yields, .call exec plays⟩
      · cases h

theorem performs_outcome {m : Machine S ε σ} {t : Nat} {allowed : Nat → S.Op → σ → Prop}
    {script : Script S ε σ} (follows : script.Follows m allowed t) {p : Program S ε α} {s s' : σ}
    {out : Except ε α} (h : p.outcome script s = some (out, s')) :
    ∃ τ, p.Performs m t s τ out s' :=
  ⟨_, performs_transcript (I := fun _ => True)
    (fun op s r s' _ answer => ⟨(follows op s r s' answer).2, trivial⟩) trivial h⟩

/-- What a script that keeps an assertion leaves. -/
theorem outcome_keeps {script : Script S ε σ} {I : σ → Prop}
    (keeps : ∀ op s r s', I s → script op s = some (r, s') → I s') {p : Program S ε α} {s s' : σ}
    {out : Except ε α} (inv : I s) (h : p.outcome script s = some (out, s')) : I s' := by
  induction p generalizing s with
  | ret a =>
      cases h
      exact inv
  | raise e =>
      cases h
      exact inv
  | call op next ih =>
      rw [Program.outcome] at h
      split at h
      · next r s₁ answer => exact ih r (keeps op s r s₁ inv answer) h
      · cases h

/-! ### Performances as runs -/

/-- The program that is left when another one has ended. -/
def Program.ending : Except ε α → Program S ε α
  | .ok a => .ret a
  | .error e => .raise e

section Runs

variable {m m' : Machine S ε σ} {starts : Program S ε Unit → Prop} {t : Nat} {s₀ s s' : σ}
  {p : Program S ε Unit} {τ : Trace S ε} {out : Except ε Unit}
  (execs : ∀ op s r s', m'.exec t op s r s' → m.exec t op s r s')
  (drifts : ∀ s s', m'.drift s s' → m.drift s s')

include execs drifts

/-- The other threads wait while a program is performed. -/
theorem steps_performs (h : p.Performs m' t s τ out s')
    (threads : Nat → Option (Program S ε Unit)) :
    Relation.ReflTransGen (Pool.Step m starts fun _ _ _ => True)
      ⟨Function.update threads t (some p), s⟩
      ⟨Function.update threads t (some (.ending out)), s'⟩ := by
  obtain ⟨yields, plays⟩ := h
  induction plays generalizing p with
  | done =>
      cases yields with
      | ret a => exact .refl
      | raise e => exact .refl
  | drift h _ ih => exact .head (.drift (drifts _ _ h)) (ih yields)
  | @call op r s₁ s₂ s₃ τ h rest ih =>
      cases yields with
      | @call _ next _ _ _ tail =>
          have step : Pool.Step m starts (fun _ _ _ => True)
              ⟨Function.update threads t (some (.call op next)), s₁⟩
              ⟨Function.update (Function.update threads t (some (.call op next))) t
                (some (next r)), s₂⟩ :=
            .call t (Function.update_self ..) trivial (execs _ _ _ _ h)
          rw [Function.update_idem] at step
          exact .head step (ih tail)

/-- A request that is performed while no other thread is at work. -/
theorem reachable_performs (start : starts p)
    (idle : Pool.Reachable m starts (fun _ _ _ => True) s₀ ⟨fun _ => none, s⟩)
    (h : p.Performs m' t s τ out s') :
    Pool.Reachable m starts (fun _ _ _ => True) s₀ ⟨fun _ => none, s'⟩ := by
  have run := (idle.tail (.start t rfl start)).trans
    (steps_performs execs drifts h fun _ => none)
  have rest : Function.update (Function.update (fun _ => none) t (some (.ending out))) t none =
      (fun _ => none : Nat → Option (Program S ε Unit)) := by
    rw [Function.update_idem, Function.update_eq_self_iff]
  rw [← rest]
  cases out with
  | ok a => exact run.tail (.finish t (Function.update_self ..))
  | error e => exact run.tail (.fail t (Function.update_self ..))

end Runs

/-! ### The rules of the disciplines -/

/-- The state, and the calls made so far. -/
def Machine.recorded (m : Machine S ε σ) : Machine S ε (σ × Trace S ε) where
  exec t op s r s' := m.exec t op s.1 r s'.1 ∧ s'.2 = s.2 ++ [⟨op, r⟩]
  drift s s' := m.drift s.1 s'.1 ∧ s'.2 = s.2

/-- Nothing but the drift comes between two calls. -/
def solo (m : Machine S ε σ) : Discipline m.recorded where
  inv _ := True
  rely _ := Relation.ReflTransGen m.recorded.drift
  idle _ _ := True
  allowed _ _ _ := True
  good _ _ _ := True
  rely_refl _ _ := .refl
  rely_trans := .trans
  idle_stable _ _ := trivial
  drift_ok _ h := ⟨trivial, fun _ => .single h⟩

section Rules

variable {m : Machine S ε σ} {t : Nat} {s s' : σ} {τ : Trace S ε} {out : Except ε α}

theorem performs_safe {p : Program S ε α} {Q : Except ε α → σ × Trace S ε → Prop}
    {past : Trace S ε} (safe : (solo m).Safe t Q p (s, past))
    (stable : ∀ out s s', Q out s → m.recorded.drift s s' → Q out s')
    (h : p.Performs m t s τ out s') : Q out (s', past ++ τ) := by
  have drifts : ∀ {s s' : σ} (past : Trace S ε), Relation.ReflTransGen m.drift s s' →
      Relation.ReflTransGen m.recorded.drift (s, past) (s', past) := by
    intro s s' past run
    exact run.lift (fun s => (s, past)) fun _ _ h => ⟨h, rfl⟩
  have kept : ∀ out s s', Q out s → Relation.ReflTransGen m.recorded.drift s s' → Q out s' := by
    intro out s s' hQ run
    induction run with
    | refl => exact hQ
    | tail _ h ih => exact stable out _ _ ih h
  induction p generalizing s past τ with
  | ret a =>
      obtain ⟨rfl, rfl, run⟩ := performs_ret h
      rw [List.append_nil]
      exact kept _ _ _ safe (drifts past run)
  | raise e =>
      obtain ⟨rfl, rfl, run⟩ := performs_raise h
      rw [List.append_nil]
      exact kept _ _ _ safe (drifts past run)
  | call op next ih =>
      obtain ⟨s₁, r, s₂, rest, before, exec, rfl, further⟩ := performs_call h
      obtain ⟨_, step⟩ := safe (s₁, past) (drifts past before) trivial trivial
      obtain ⟨_, safe'⟩ := step r (s₂, past ++ [⟨op, r⟩]) ⟨exec, rfl⟩
      have := ih r safe' further
      rwa [List.append_assoc] at this

/-- What a triple says of a program performed alone. -/
theorem performs_triple {p : Program S ε α} {P : σ × Trace S ε → Prop}
    {Q : Except ε α → σ × Trace S ε → Prop} (triple : (solo m).Triple t P p Q)
    (stable : ∀ out s s', Q out s → m.recorded.drift s s' → Q out s') (before : P (s, []))
    (h : p.Performs m t s τ out s') : Q out (s', τ) :=
  performs_safe (triple (s, []) trivial before) stable h

/-- A machine without drift spoils nothing. -/
theorem solo_stable (still : ∀ s s', ¬ m.drift s s') (P : σ × Trace S ε → Prop) :
    (solo m).Stable t P := by
  intro s s' h run
  obtain rfl | ⟨s₁, _, step⟩ := Relation.ReflTransGen.cases_tail run
  · exact h
  · exact absurd step.1 (still _ _)

end Rules

end Effect
