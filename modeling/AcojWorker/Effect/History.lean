import AcojWorker.Effect.Interleaving
import AcojWorker.Effect.Trace

/-!
# What a program may do in view of what it has done

The calls a program has made, with their answers, are a state that only grows and that nobody
else touches. A policy says which calls are good after which histories. Programs are checked
against it by the rules for disciplines, and what is proved holds of every trace they yield:
at each call, of the calls before it.
-/

namespace Effect

section Recorder

variable (S : Signature) (ε : Type)

/-- Every call may be answered in any way, and is remembered with its answer. -/
def recorder : Machine S ε (Trace S ε) where
  exec _ op past answer past' := past' = past ++ [⟨op, answer⟩]
  drift _ _ := False

/-- The calls that are good after a history. -/
abbrev Policy : Type := Trace S ε → S.Op → Prop

end Recorder

namespace Policy

open Discipline

variable {S : Signature} {ε α β γ : Type} (policy : Policy S ε)

/-- Only the program at work, thread 0, adds to the history. -/
def discipline : Discipline (recorder S ε) where
  inv _ := True
  rely t past past' := t = 0 → past = past'
  idle _ _ := True
  allowed _ _ _ := True
  good _ op past := policy past op
  rely_refl _ _ _ := rfl
  rely_trans first second here := (first here).trans (second here)
  idle_stable _ _ := trivial
  drift_ok _ h := h.elim

/-- After a history with `P`, the program makes good calls only; it is left with `Q`. -/
abbrev Obeys (P : Trace S ε → Prop) (p : Program S ε α) (Q : Except ε α → Trace S ε → Prop) :
    Prop :=
  policy.discipline.Triple 0 P p Q

/-- Every call of the trace is good after the calls before it. -/
def Followed (t : Trace S ε) : Prop := ∀ t₁ e t₂, t = t₁ ++ e :: t₂ → policy t₁ e.op

variable {policy} {P : Trace S ε → Prop}

theorem safe_yields {Q : Except ε α → Trace S ε → Prop} {p : Program S ε α} {past t : Trace S ε}
    {out : Except ε α} (safe : policy.discipline.Safe 0 Q p past) (yields : p.Yields t out) :
    (∀ t₁ e t₂, t = t₁ ++ e :: t₂ → policy (past ++ t₁) e.op) ∧ Q out (past ++ t) := by
  induction yields generalizing past with
  | ret a =>
      rw [List.append_nil]
      exact ⟨by simp, safe⟩
  | raise e =>
      rw [List.append_nil]
      exact ⟨by simp, safe⟩
  | @call op next t out r rest ih =>
      obtain ⟨good, step⟩ := safe past (fun _ => rfl) trivial trivial
      obtain ⟨later, left⟩ := ih (step r _ rfl).2
      rw [List.append_assoc] at left
      refine ⟨fun t₁ e t₂ split => ?_, left⟩
      cases t₁ with
      | nil =>
          obtain ⟨rfl, -⟩ := List.cons.inj split
          rw [List.append_nil]
          exact good
      | cons first t₁ =>
          obtain ⟨rfl, tail⟩ := List.cons.inj split
          have here := later t₁ e t₂ tail
          rwa [List.append_assoc] at here

/-- What is proved of a program holds of its traces. -/
theorem obeys_yields {Q : Except ε α → Trace S ε → Prop} {p : Program S ε α}
    (obeys : policy.Obeys P p Q) (start : P []) {t : Trace S ε} {out : Except ε α}
    (yields : p.Yields t out) : policy.Followed t ∧ Q out t :=
  safe_yields (obeys [] trivial start) yields

theorem stable : policy.discipline.Stable 0 P := fun _ _ h same => same rfl ▸ h

theorem keeps (past past' : Trace S ε) : policy.discipline.Keeps 0 past past' :=
  ⟨trivial, fun _ other here => absurd here other⟩

theorem obeys_perform {op : S.Op} {Q : Except ε (S.Res op) → Trace S ε → Prop}
    (good : ∀ past, P past → policy past op)
    (next : ∀ past answer, P past → Q answer (past ++ [⟨op, answer⟩])) :
    policy.Obeys P (.perform op) Q := by
  refine triple_perform stable (fun past _ h _ => good past h) ?_
  rintro past answer _ _ h _ rfl
  exact ⟨keeps _ _, next past answer h⟩

/-- The value of a step without calls is known afterwards. -/
theorem obeys_read {x : Except ε β} {f : β → Program S ε α} {R : α → Trace S ε → Prop}
    {E : ε → Trace S ε → Prop} (ok : ∀ b, x = .ok b → policy.Obeys P (f b) (Post R E))
    (error : ∀ e past, P past → E e past) : policy.Obeys P (liftM x >>= f) (Post R E) := by
  cases x with
  | ok b => exact ok b rfl
  | error e => exact triple_raise fun past _ h => error e past h

/-- However a program is left, what holds then holds. -/
theorem obeys_either {R : Trace S ε → Prop} {p : Program S ε α}
    (hp : policy.Obeys P p fun _ => R) : policy.Obeys P p (Post (fun _ => R) fun _ => R) := by
  refine triple_post hp ?_
  rintro (e | a) past _ h
  · exact h
  · exact h

/-! ### What lasts -/

/-- What holds of a history holds of the longer ones. -/
def Lasting (P : Trace S ε → Prop) : Prop := ∀ past t, P past → P (past ++ t)

/-- Calls that keep what makes them good. -/
theorem obeys_calls {C : S.Op → Prop} {p : Program S ε α} (made : p.Calls C)
    (good : ∀ op past, C op → P past → policy past op)
    (step : ∀ op past answer, C op → P past → P (past ++ [⟨op, answer⟩])) :
    policy.Obeys P p (Post (fun _ => P) fun _ => P) := by
  refine obeys_either (triple_calls made stable (fun op past here _ h _ => good op past here h) ?_)
  rintro op past answer _ here _ h _ rfl
  exact ⟨keeps _ _, step op past answer here h⟩

/-- A clean-up of good calls whose outcome does not matter. -/
theorem obeys_onRaise {p : Program S ε α} {cleanup : Program S ε Unit} {R : α → Trace S ε → Prop}
    {E E' : ε → Trace S ε → Prop} (hp : policy.Obeys P p (Post R E))
    (hc : ∀ e, policy.Obeys (E e) cleanup (Post (fun _ => E' e) E')) :
    policy.Obeys P (p.onRaise cleanup) (Post R E') :=
  triple_tryCatch hp fun e => triple_bind (hc e) fun _ => triple_raise fun _ _ h => h

/-- What lasts is still there at the end of every program. -/
theorem obeys_frame {F : Trace S ε → Prop} {p : Program S ε α} {Q : Except ε α → Trace S ε → Prop}
    (lasting : Lasting F) (hp : policy.Obeys P p Q) :
    policy.Obeys (fun past => P past ∧ F past) p fun out past => Q out past ∧ F past := by
  have kept : ∀ past, policy.discipline.Safe 0 Q p past → F past →
      policy.discipline.Safe 0 (fun out past => Q out past ∧ F past) p past := by
    clear hp
    induction p with
    | ret a => exact fun past safe frame => ⟨safe, frame⟩
    | raise e => exact fun past safe frame => ⟨safe, frame⟩
    | call op next ih =>
        intro past safe frame past₁ same _ _
        obtain ⟨good, step⟩ := safe past₁ same trivial trivial
        refine ⟨good, fun answer past₂ recorded => ?_⟩
        obtain ⟨keeps, rest⟩ := step answer past₂ recorded
        have frame₂ : F past₂ := by
          rw [recorded, ← same rfl]
          exact lasting past _ frame
        exact ⟨keeps, ih answer past₂ rest frame₂⟩
  exact fun past _ h => kept past (hp past trivial h.1) h.2

theorem obeys_kept {F : Trace S ε → Prop} {p : Program S ε α} {R : α → Trace S ε → Prop}
    {E : ε → Trace S ε → Prop} (lasting : Lasting F) (hp : policy.Obeys P p (Post R E)) :
    policy.Obeys (fun past => P past ∧ F past) p (Post (fun a past => R a past ∧ F past) E) := by
  refine triple_post (obeys_frame lasting hp) ?_
  rintro (e | a) past _ ⟨h, frame⟩
  · exact h
  · exact ⟨h, frame⟩

/-- What each element of a list leads to, if it lasts, holds of the whole list in the end. -/
theorem obeys_mapM {f : γ → Program S ε α} {R : γ → α → Trace S ε → Prop}
    {E : ε → Trace S ε → Prop} (lasting : ∀ x a, Lasting (R x a))
    (each : ∀ x, policy.Obeys P (f x) (Post (fun a past => P past ∧ R x a past) E))
    (xs : List γ) :
    policy.Obeys P (xs.mapM f)
      (Post (fun as past => P past ∧ List.Forall₂ (fun x a => R x a past) xs as) E) := by
  induction xs with
  | nil => exact triple_ret fun _ _ h => ⟨h, .nil⟩
  | cons x xs ih =>
      rw [List.mapM_cons]
      refine triple_bind (each x) fun a => ?_
      refine triple_bind (obeys_kept (lasting x a) ih) fun as => ?_
      exact triple_ret fun past _ h => ⟨h.1.1, .cons h.2 h.1.2⟩

end Policy

/-! ### What is held after a history -/

namespace Ledger

variable {S : Signature} {ε ρ : Type} (L : Ledger S ε ρ)

/-- What has been opened and not closed. -/
def Holds (held : Multiset ρ) (past : Trace S ε) : Prop := L.opened past = L.closed past + held

/-- Opened more often than closed. -/
def Open [DecidableEq ρ] (r : ρ) (past : Trace S ε) : Prop :=
  (L.closed past).count r < (L.opened past).count r

variable {L} {held held' : Multiset ρ} {past : Trace S ε}

theorem holds_start : L.Holds 0 [] := rfl

theorem holds_next {e : Event S ε} (holds : L.Holds held past)
    (step : L.opens e + held = L.closes e + held') : L.Holds held' (past ++ [e]) := by
  have alone : L.opened [e] + held = L.closed [e] + held' := by
    simpa [opened, closed] using step
  exact (add_zero _).symm.trans (sequel ((add_zero _).trans holds) alone)

/-- A call that neither opens nor closes. -/
theorem holds_quiet {e : Event S ε} (holds : L.Holds held past)
    (quiet : L.opens e = 0 ∧ L.closes e = 0) : L.Holds held (past ++ [e]) :=
  holds_next holds (by rw [quiet.1, quiet.2])

theorem released_iff_holds (holds : L.Holds held past) : L.Released past ↔ held = 0 := by
  rw [Released, holds]
  exact add_eq_left

theorem open_of_holds [DecidableEq ρ] {r : ρ} (holds : L.Holds held past) (mem : r ∈ held) :
    L.Open r past := by
  have positive := Multiset.count_pos.mpr mem
  rw [Open, holds, Multiset.count_add]
  omega

end Ledger

end Effect
