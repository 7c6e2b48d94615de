import AcojWorker.Effect.Sequential

/-!
# Schedules, and what holds of all threads

A schedule names the threads in the order in which they set out and take their steps; scripted
answers turn it into a run of a pool. Of all runs two things are easy to say: a property of programs that
passes to what is left of them holds of every thread, and a property of the state that every
allowed call keeps holds of every state.
-/

namespace Effect

variable {S : Signature} {ε σ : Type}

/-- Thread `t` makes its next call, or leaves if it has come to its end. -/
def Pool.turn (script : Nat → Script S ε σ) (c : Pool S ε σ) (t : Nat) : Option (Pool S ε σ) :=
  match c.threads t with
  | some (.call op next) =>
      match script t op c.state with
      | some (r, s') => some ⟨Function.update c.threads t (some (next r)), s'⟩
      | none => none
  | some (.ret ()) => some ⟨Function.update c.threads t none, c.state⟩
  | some (.raise _) => some ⟨Function.update c.threads t none, c.state⟩
  | none => none

/-- An entry of a schedule: an idle thread sets out, or a thread takes its next step. -/
inductive Move (S : Signature) (ε : Type) where
  | start (t : Nat) (p : Program S ε Unit)
  | turn (t : Nat)

def Pool.move (script : Nat → Script S ε σ) (c : Pool S ε σ) : Move S ε → Option (Pool S ε σ)
  | .start t p =>
      match c.threads t with
      | none => some ⟨Function.update c.threads t (some p), c.state⟩
      | some _ => none
  | .turn t => c.turn script t

/-- The run of a schedule, if every step of it can be taken. -/
def Pool.play (script : Nat → Script S ε σ) : List (Move S ε) → Pool S ε σ → Option (Pool S ε σ)
  | [], c => some c
  | next :: schedule, c => (c.move script next).bind (play script schedule)

section Runs

variable {m : Machine S ε σ} {starts starts' : Program S ε Unit → Prop}
  {allowed allowed' : Nat → S.Op → σ → Prop} {script : Nat → Script S ε σ} {c c' : Pool S ε σ}

theorem step_turn {t : Nat} (follows : (script t).Follows m allowed t)
    (h : c.turn script t = some c') : Pool.Step m starts allowed c c' := by
  obtain ⟨threads, s⟩ := c
  rw [Pool.turn] at h
  split at h
  · next op next at_call =>
    split at h
    · next r s' answer =>
      cases h
      obtain ⟨ok, exec⟩ := follows op s r s' answer
      exact .call t at_call ok exec
    · cases h
  · next done =>
    cases h
    exact .finish t done
  · next failed =>
    cases h
    exact .fail t failed
  · cases h

theorem steps_play {schedule : List (Move S ε)} (follows : ∀ t, (script t).Follows m allowed t)
    (programs : ∀ t p, .start t p ∈ schedule → starts p) (h : c.play script schedule = some c') :
    Relation.ReflTransGen (Pool.Step m starts allowed) c c' := by
  induction schedule generalizing c with
  | nil =>
      cases h
      exact .refl
  | cons next schedule ih =>
      obtain ⟨c₁, hmove, rest⟩ := Option.bind_eq_some_iff.mp h
      refine .head ?_ (ih (fun t p hp => programs t p (List.mem_cons_of_mem _ hp)) rest)
      cases next with
      | turn t => exact step_turn (follows t) hmove
      | start t p =>
          rw [Pool.move] at hmove
          split at hmove
          · next idle =>
            cases hmove
            exact .start t idle (programs t p (List.mem_cons_self ..))
          · cases hmove

theorem turn_call {t : Nat} {op : S.Op} {next : Except ε (S.Res op) → Program S ε Unit}
    {r : Except ε (S.Res op)} {s' : σ} (at_call : c.threads t = some (.call op next))
    (answer : script t op c.state = some (r, s')) :
    c.turn script t = some ⟨Function.update c.threads t (some (next r)), s'⟩ := by
  rw [Pool.turn, at_call]
  simp only [answer]

/-- The pool at the end of a schedule. -/
def Pool.after (script : Nat → Script S ε σ) (schedule : List (Move S ε)) (c : Pool S ε σ) :
    Pool S ε σ :=
  (c.play script schedule).getD c

theorem play_after {schedule : List (Move S ε)} (runs : (c.play script schedule).isSome = true) :
    c.play script schedule = some (c.after script schedule) := by
  obtain ⟨c', h⟩ := Option.isSome_iff_exists.mp runs
  rw [Pool.after, h, Option.getD_some]

def Move.thread : Move S ε → Nat
  | .start t _ => t
  | .turn t => t

theorem move_threads {next : Move S ε} {u : Nat} (other : next.thread ≠ u)
    (h : c.move script next = some c') : c'.threads u = c.threads u := by
  have update : ∀ (x : Option (Program S ε Unit)),
      Function.update c.threads next.thread x u = c.threads u :=
    fun x => Function.update_of_ne (Ne.symm other) ..
  cases next with
  | start t p =>
      rw [Pool.move] at h
      split at h
      · cases h
        exact update _
      · cases h
  | turn t =>
      rw [Pool.move, Pool.turn] at h
      split at h
      · split at h
        · cases h
          exact update _
        · cases h
      · cases h
        exact update _
      · cases h
        exact update _
      · cases h

/-- A schedule leaves the other threads where they are. -/
theorem play_threads {schedule : List (Move S ε)} {u : Nat}
    (other : ∀ next ∈ schedule, next.thread ≠ u) (h : c.play script schedule = some c') :
    c'.threads u = c.threads u := by
  induction schedule generalizing c with
  | nil =>
      cases h
      rfl
  | cons next schedule ih =>
      obtain ⟨c₁, hmove, rest⟩ := Option.bind_eq_some_iff.mp h
      rw [ih (fun e he => other e (List.mem_cons_of_mem _ he)) rest]
      exact move_threads (other next (List.mem_cons_self ..)) hmove

/-- What fewer programs do under more rules is done by more under fewer. -/
theorem steps_mono (programs : ∀ p, starts p → starts' p)
    (rules : ∀ t op s, allowed t op s → allowed' t op s)
    (run : Relation.ReflTransGen (Pool.Step m starts allowed) c c') :
    Relation.ReflTransGen (Pool.Step m starts' allowed') c c' := by
  refine Relation.ReflTransGen.mono (fun c c' step => ?_) _ _ run
  cases step with
  | drift h => exact .drift h
  | start t idle h => exact .start t idle (programs _ h)
  | call t at_call ok h => exact .call t at_call (rules _ _ _ ok) h
  | finish t done => exact .finish t done
  | fail t failed => exact .fail t failed

/-- A property that passes from a program to what is left of it holds of every thread. -/
theorem threads_run {P : Program S ε Unit → Prop} (programs : ∀ p, starts p → P p)
    (passes : ∀ op next, P (.call op next) → ∀ r, P (next r))
    (run : Relation.ReflTransGen (Pool.Step m starts allowed) c c')
    (before : ∀ t p, c.threads t = some p → P p) :
    ∀ t p, c'.threads t = some p → P p := by
  induction run with
  | refl => exact before
  | @tail c₁ c₂ _ step ih =>
      have updated : ∀ (t : Nat) (x : Option (Program S ε Unit)), (∀ p, x = some p → P p) →
          ∀ u p, Function.update c₁.threads t x u = some p → P p := by
        intro t x hx u p hu
        by_cases same : u = t
        · subst same
          rw [Function.update_self] at hu
          exact hx p hu
        · rw [Function.update_of_ne same] at hu
          exact ih u p hu
      cases step with
      | drift h => exact ih
      | start t idle h =>
          apply updated
          rintro p ⟨⟩
          exact programs _ h
      | call t at_call ok h =>
          apply updated
          rintro p ⟨⟩
          exact passes _ _ (ih t _ at_call) _
      | finish t done =>
          apply updated
          exact nofun
      | fail t failed =>
          apply updated
          exact nofun

/-- A property of the state that every allowed call and every drift keeps. -/
theorem state_run {I : σ → Prop} (drift : ∀ s s', I s → m.drift s s' → I s')
    (exec : ∀ t op s r s', I s → allowed t op s → m.exec t op s r s' → I s')
    (run : Relation.ReflTransGen (Pool.Step m starts allowed) c c') (before : I c.state) :
    I c'.state := by
  induction run with
  | refl => exact before
  | tail _ step ih =>
      cases step with
      | drift h => exact drift _ _ ih h
      | start t idle h => exact ih
      | call t at_call ok h => exact exec _ _ _ _ _ ih ok h
      | finish t done => exact ih
      | fail t failed => exact ih

end Runs

end Effect
