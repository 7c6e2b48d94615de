import AcojWorker.Effect.Trace

/-!
# Scripts

A script is a list of calls that are made one after the other until one of them raises. What a
script has done is a prefix of the list, and before its last call nothing raised; so whatever
stands before a call in the list has been done when the call is made.
-/

namespace Effect

variable {S : Signature} {ε α β γ : Type}

/-! ### Where a call stands -/

theorem split_left {x : α} {xs ys done rest : List α} (absent : x ∉ ys)
    (split : xs ++ ys = done ++ x :: rest) : ∃ rest', xs = done ++ x :: rest' := by
  obtain ⟨c, rfl, hc⟩ | ⟨c, rfl, hc⟩ := List.append_eq_append_iff.mp split
  · exact absurd (by rw [hc]; simp) absent
  · cases c with
    | nil => exact absurd (by rw [← List.nil_append ys, ← hc]; simp) absent
    | cons y c =>
        obtain ⟨rfl, -⟩ := List.cons.inj hc
        exact ⟨c, rfl⟩

theorem split_right {x : α} {xs ys done rest : List α} (absent : x ∉ xs)
    (split : xs ++ ys = done ++ x :: rest) :
    ∃ done', done = xs ++ done' ∧ ys = done' ++ x :: rest := by
  obtain ⟨c, rfl, hc⟩ | ⟨c, rfl, hc⟩ := List.append_eq_append_iff.mp split
  · exact ⟨c, rfl, hc⟩
  · cases c with
    | nil => exact ⟨[], by simp, hc.symm⟩
    | cons y c =>
        obtain ⟨rfl, -⟩ := List.cons.inj hc
        exact absurd (by simp) absent

theorem split_flatMap {x : α} {xs : List β} {f : β → List α} {done rest : List α}
    (split : xs.flatMap f = done ++ x :: rest) :
    ∃ before y after part, xs = before ++ y :: after ∧ x ∈ f y ∧
      done = before.flatMap f ++ part := by
  induction xs generalizing done with
  | nil => exact absurd split.symm (List.append_ne_nil_of_right_ne_nil _ (List.cons_ne_nil _ _))
  | cons y xs ih =>
      rw [List.flatMap_cons] at split
      obtain ⟨c, rfl, hc⟩ | ⟨c, own, hc⟩ := List.append_eq_append_iff.mp split
      · obtain ⟨before, z, after, part, rfl, mem, rfl⟩ := ih hc
        exact ⟨y :: before, z, after, part, rfl, mem, by simp⟩
      · cases c with
        | nil =>
            -- The call is the first one of a later element.
            obtain ⟨before, z, after, part, rfl, mem, none⟩ := @ih [] hc.symm
            refine ⟨y :: before, z, after, part, rfl, mem, ?_⟩
            rw [List.flatMap_cons, List.append_assoc, ← none, own]
            simp
        | cons z c =>
            obtain ⟨rfl, -⟩ := List.cons.inj hc
            exact ⟨[], y, xs, done, rfl, by rw [own]; simp, rfl⟩

namespace Program

/-- The calls of a list, one after the other. -/
def sequence : List S.Op → Program S ε Unit
  | [] => .ret ()
  | op :: ops => perform op >>= fun _ => sequence ops

theorem sequence_append (ops ops' : List S.Op) :
    (sequence (ops ++ ops') : Program S ε Unit) = sequence ops >>= fun _ => sequence ops' := by
  induction ops with
  | nil => rfl
  | cons op ops ih =>
      rw [List.cons_append, sequence, sequence, ih, bind_bind]

/-- A loop over scripts is a script. -/
theorem forM_sequence (xs : List γ) (ops : γ → List S.Op) :
    (xs.forM fun x => (sequence (ops x) : Program S ε Unit)) = sequence (xs.flatMap ops) := by
  induction xs with
  | nil => rfl
  | cons x xs ih =>
      rw [List.flatMap_cons, sequence_append, ← ih]
      rfl

end Program

namespace Trace

/-- The calls of the list were made, and none raised. -/
def Completes (ops : List S.Op) (t : Trace S ε) : Prop :=
  t.map Event.op = ops ∧ ∀ e ∈ t, e.raised = false

/-- A call of the list raised, after those before it had not. -/
def BreaksOff (ops : List S.Op) (t : Trace S ε) : Prop :=
  ∃ done last, t = done ++ [last] ∧ (∀ e ∈ done, e.raised = false) ∧ last.raised = true ∧
    t.map Event.op <+: ops

/-- The call was made. -/
def Called (op : S.Op) (t : Trace S ε) : Prop := ∃ e ∈ t, e.op = op

/-- The call was made and returned. -/
def Returned (op : S.Op) (t : Trace S ε) : Prop := ∃ e ∈ t, e.op = op ∧ e.raised = false

theorem called_iff {op : S.Op} {t : Trace S ε} : Called op t ↔ op ∈ t.map Event.op := by
  rw [List.mem_map]
  rfl

theorem returned_of_called {op : S.Op} {t : Trace S ε} (called : Called op t)
    (quiet : ∀ e ∈ t, e.op = op → e.raised = false) : Returned op t := by
  obtain ⟨e, he, same⟩ := called
  exact ⟨e, he, same, quiet e he same⟩

end Trace

namespace Program

open Trace

theorem yields_sequence {ops : List S.Op} {t : Trace S ε} {out : Except ε Unit}
    (h : (sequence ops).Yields t out) :
    Completes ops t ∧ out = .ok () ∨ BreaksOff ops t ∧ ∃ e, out = .error e := by
  induction ops generalizing t with
  | nil =>
      cases h
      exact .inl ⟨⟨rfl, by simp⟩, rfl⟩
  | cons op ops ih =>
      cases h with
      | call r rest =>
          cases r with
          | error e =>
              cases rest
              refine .inr ⟨⟨[], _, rfl, by simp, rfl, ?_⟩, e, rfl⟩
              exact List.cons_prefix_cons.mpr ⟨rfl, List.nil_prefix⟩
          | ok a =>
              obtain ⟨⟨same, quiet⟩, hout⟩ | ⟨⟨done, last, rfl, quiet, raised, part⟩, hout⟩ :=
                ih rest
              · refine .inl ⟨⟨by rw [List.map_cons, same], ?_⟩, hout⟩
                exact List.forall_mem_cons.mpr ⟨rfl, quiet⟩
              · refine .inr ⟨⟨_ :: done, last, rfl, ?_, raised, ?_⟩, hout⟩
                · exact List.forall_mem_cons.mpr ⟨rfl, quiet⟩
                · exact List.cons_prefix_cons.mpr ⟨rfl, part⟩

/-- However the body is left, the clean-up follows. -/
theorem yields_tryFinally {p : Program S ε α} {cleanup : Program S ε Unit} {t : Trace S ε}
    {out : Except ε α} (h : (p.tryFinally cleanup).Yields t out) :
    ∃ t₁ t₂ left done, p.Yields t₁ left ∧ cleanup.Yields t₂ done ∧ t = t₁ ++ t₂ := by
  induction p generalizing t with
  | ret a =>
      obtain ⟨e, he, -⟩ | ⟨_, t₁, t₂, hc, hr, rfl⟩ := yields_bind h
      · exact ⟨[], t, _, _, .ret a, he, rfl⟩
      · cases hr
        exact ⟨[], t₁, _, _, .ret a, hc, List.append_nil t₁⟩
  | raise e =>
      obtain ⟨e', he, -⟩ | ⟨_, t₁, t₂, hc, hr, rfl⟩ := yields_bind h
      · exact ⟨[], t, _, _, .raise e, he, rfl⟩
      · cases hr
        exact ⟨[], t₁, _, _, .raise e, hc, List.append_nil t₁⟩
  | call op next ih =>
      cases h with
      | call r rest =>
          obtain ⟨t₁, t₂, left, done, hp, hc, rfl⟩ := ih r rest
          exact ⟨_ :: t₁, t₂, left, done, .call r hp, hc, rfl⟩

end Program

end Effect
