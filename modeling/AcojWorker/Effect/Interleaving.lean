import AcojWorker.Effect.Program
import Mathlib.Logic.Function.Basic
import Mathlib.Logic.Relation

/-!
# Threads over a shared state

Threads run programs over one state, one external call at a time and in any order. A call
may be answered in several ways, and the state may drift between calls.

What holds of every run is proved thread by thread. A discipline fixes an invariant and what
each thread relies on; a program is safe if its calls keep the invariant, respect what the
other threads rely on, and are good when they are made.
-/

namespace Effect

/-- How calls act on a shared state. -/
structure Machine (S : Signature) (ε σ : Type) where
  /-- The answers a thread may get, each with the state it leaves. -/
  exec : Nat → (op : S.Op) → σ → Except ε (S.Res op) → σ → Prop
  /-- What may happen between two calls. -/
  drift : σ → σ → Prop

/-- The threads at work, and the state they share. -/
structure Pool (S : Signature) (ε σ : Type) where
  threads : Nat → Option (Program S ε Unit)
  state : σ

section Steps

variable {S : Signature} {ε σ : Type} (m : Machine S ε σ)
  (starts : Program S ε Unit → Prop) (allowed : Nat → S.Op → σ → Prop)

/-- One step of a run in which every call is allowed. -/
inductive Pool.Step : Pool S ε σ → Pool S ε σ → Prop where
  | drift {threads : Nat → Option (Program S ε Unit)} {s s' : σ} (h : m.drift s s') :
      Step ⟨threads, s⟩ ⟨threads, s'⟩
  | start {threads : Nat → Option (Program S ε Unit)} {s : σ} (t : Nat) {p : Program S ε Unit}
      (idle : threads t = none) (h : starts p) :
      Step ⟨threads, s⟩ ⟨Function.update threads t (some p), s⟩
  | call {threads : Nat → Option (Program S ε Unit)} {s s' : σ} (t : Nat) {op : S.Op}
      {next : Except ε (S.Res op) → Program S ε Unit} (at_call : threads t = some (.call op next))
      (ok : allowed t op s) {r : Except ε (S.Res op)} (h : m.exec t op s r s') :
      Step ⟨threads, s⟩ ⟨Function.update threads t (some (next r)), s'⟩
  | finish {threads : Nat → Option (Program S ε Unit)} {s : σ} (t : Nat)
      (done : threads t = some (.ret ())) :
      Step ⟨threads, s⟩ ⟨Function.update threads t none, s⟩
  | fail {threads : Nat → Option (Program S ε Unit)} {s : σ} (t : Nat) {e : ε}
      (failed : threads t = some (.raise e)) :
      Step ⟨threads, s⟩ ⟨Function.update threads t none, s⟩

/-- The pools of the runs from a state in which no thread is at work. -/
def Pool.Reachable (s : σ) : Pool S ε σ → Prop :=
  Relation.ReflTransGen (Pool.Step m starts allowed) ⟨fun _ => none, s⟩

end Steps

/-! ### Disciplines -/

/-- The invariant of a run, what a thread relies on while others make their calls, what holds
for a thread between two programs, and when a call is allowed and good. -/
structure Discipline {S : Signature} {ε σ : Type} (m : Machine S ε σ) where
  inv : σ → Prop
  rely : Nat → σ → σ → Prop
  idle : Nat → σ → Prop
  allowed : Nat → S.Op → σ → Prop
  good : Nat → S.Op → σ → Prop
  rely_refl : ∀ t s, rely t s s
  rely_trans : ∀ {t s s' s''}, rely t s s' → rely t s' s'' → rely t s s''
  idle_stable : ∀ {t s s'}, idle t s → rely t s s' → idle t s'
  drift_ok : ∀ {s s'}, inv s → m.drift s s' → inv s' ∧ ∀ t, rely t s s'

namespace Discipline

variable {S : Signature} {ε σ α β : Type} {m : Machine S ε σ} (d : Discipline m) (t : Nat)

/-- What a call of `t` owes to the discipline, besides its own postcondition. -/
def Keeps (s s' : σ) : Prop := d.inv s' ∧ ∀ u, u ≠ t → d.rely u s s'

/-- All calls of a program are good and keep the discipline, whatever the other threads do
before each of them; `Q` holds when it ends. -/
def Safe (Q : Except ε α → σ → Prop) : Program S ε α → σ → Prop
  | .ret a, s => Q (.ok a) s
  | .raise e, s => Q (.error e) s
  | .call op next, s => ∀ s₁, d.rely t s s₁ → d.inv s₁ → d.allowed t op s₁ →
      d.good t op s₁ ∧ ∀ r s₂, m.exec t op s₁ r s₂ → d.Keeps t s₁ s₂ ∧ Safe Q (next r) s₂

/-- From `P`, the program is safe and ends in `Q`. -/
def Triple (P : σ → Prop) (p : Program S ε α) (Q : Except ε α → σ → Prop) : Prop :=
  ∀ s, d.inv s → P s → d.Safe t Q p s

/-- An assertion that no other thread can spoil. -/
def Stable (P : σ → Prop) : Prop := ∀ s s', P s → d.rely t s s' → P s'

/-- What is asserted after a step: `Q` if it returns, `E` if it raises. -/
def Post (Q : α → σ → Prop) (E : ε → σ → Prop) : Except ε α → σ → Prop
  | .ok a => Q a
  | .error e => E e

variable {d t} {P P' : σ → Prop} {Q Q' : Except ε α → σ → Prop}

theorem safe_mono {p : Program S ε α} {s : σ} (inv : d.inv s) (safe : d.Safe t Q p s)
    (weaker : ∀ r s, d.inv s → Q r s → Q' r s) : d.Safe t Q' p s := by
  induction p generalizing s with
  | ret a => exact weaker _ _ inv safe
  | raise e => exact weaker _ _ inv safe
  | call op next ih =>
      intro s₁ hrely hinv hallowed
      obtain ⟨good, step⟩ := safe s₁ hrely hinv hallowed
      refine ⟨good, fun r s₂ hexec => ?_⟩
      obtain ⟨keeps, rest⟩ := step r s₂ hexec
      exact ⟨keeps, ih r keeps.1 rest⟩

/-- A program that goes on where another one ended. -/
theorem safe_then {p : Program S ε α} {f : Program S ε α → Program S ε β}
    {Q' : Except ε β → σ → Prop} {s : σ}
    (call : ∀ op next, f (.call op next) = .call op fun r => f (next r)) (inv : d.inv s)
    (safe : d.Safe t Q p s)
    (ret : ∀ a s, d.inv s → Q (.ok a) s → d.Safe t Q' (f (.ret a)) s)
    (raise : ∀ e s, d.inv s → Q (.error e) s → d.Safe t Q' (f (.raise e)) s) :
    d.Safe t Q' (f p) s := by
  induction p generalizing s with
  | ret a => exact ret a s inv safe
  | raise e => exact raise e s inv safe
  | call op next ih =>
      rw [call]
      intro s₁ hrely hinv hallowed
      obtain ⟨good, step⟩ := safe s₁ hrely hinv hallowed
      refine ⟨good, fun r s₂ hexec => ?_⟩
      obtain ⟨keeps, rest⟩ := step r s₂ hexec
      exact ⟨keeps, ih r keeps.1 rest⟩

/-! ### Rules -/

theorem triple_ret {a : α} (h : ∀ s, d.inv s → P s → Q (.ok a) s) :
    d.Triple t P (.ret a) Q := h

theorem triple_raise {e : ε} (h : ∀ s, d.inv s → P s → Q (.error e) s) :
    d.Triple t P (.raise e) Q := h

theorem triple_pre {p : Program S ε α} (hp : d.Triple t P p Q)
    (stronger : ∀ s, d.inv s → P' s → P s) : d.Triple t P' p Q :=
  fun s inv h => hp s inv (stronger s inv h)

theorem triple_post {p : Program S ε α} (hp : d.Triple t P p Q)
    (weaker : ∀ r s, d.inv s → Q r s → Q' r s) : d.Triple t P p Q' :=
  fun s inv h => safe_mono inv (hp s inv h) weaker

theorem triple_exists {ι : Type} {P : ι → σ → Prop} {p : Program S ε α}
    (hp : ∀ i, d.Triple t (P i) p Q) : d.Triple t (fun s => ∃ i, P i s) p Q := by
  rintro s inv ⟨i, h⟩
  exact hp i s inv h

theorem triple_pure {A : Prop} {p : Program S ε α} (hp : A → d.Triple t P p Q) :
    d.Triple t (fun s => A ∧ P s) p Q :=
  fun s inv h => hp h.1 s inv h.2

theorem triple_bind {p : Program S ε β} {f : β → Program S ε α} {R : β → σ → Prop}
    (hp : d.Triple t P p (Post R fun e => Q (.error e))) (hf : ∀ b, d.Triple t (R b) (f b) Q) :
    d.Triple t P (p >>= f) Q := by
  intro s inv h
  refine safe_then (f := fun p => p >>= f) (fun _ _ => rfl) inv (hp s inv h) ?_ ?_
  · exact fun b s inv hb => hf b s inv hb
  · exact fun e s inv he => he

/-- A step whose exceptions are known better than needed. -/
theorem triple_step {p : Program S ε β} {f : β → Program S ε α} {R : β → σ → Prop}
    {E : ε → σ → Prop} (hp : d.Triple t P p (Post R E)) (error : ∀ e s, E e s → Q (.error e) s)
    (hf : ∀ b, d.Triple t (R b) (f b) Q) : d.Triple t P (p >>= f) Q := by
  refine triple_bind (triple_post hp ?_) hf
  rintro (e | b) s _ h
  · exact error e s h
  · exact h

theorem triple_perform {op : S.Op} {Q : Except ε (S.Res op) → σ → Prop} (stable : d.Stable t P)
    (good : ∀ s, d.inv s → P s → d.allowed t op s → d.good t op s)
    (step : ∀ s r s', d.inv s → P s → d.allowed t op s → m.exec t op s r s' →
      d.Keeps t s s' ∧ Q r s') :
    d.Triple t P (.perform op) Q := by
  intro s _ h s₁ hrely hinv hallowed
  have hP := stable s s₁ h hrely
  refine ⟨good s₁ hinv hP hallowed, fun r s₂ hexec => ?_⟩
  obtain ⟨keeps, hQ⟩ := step s₁ r s₂ hinv hP hallowed hexec
  refine ⟨keeps, ?_⟩
  cases r with
  | ok a => exact hQ
  | error e => exact hQ

theorem triple_lift {x : Except ε α} (ok : ∀ a s, x = .ok a → d.inv s → P s → Q (.ok a) s)
    (error : ∀ e s, x = .error e → d.inv s → P s → Q (.error e) s) :
    d.Triple t P (liftM x) Q := by
  intro s inv h
  cases x with
  | ok a => exact ok a s rfl inv h
  | error e => exact error e s rfl inv h

theorem triple_tryCatch {p : Program S ε α} {handler : ε → Program S ε α} {E : ε → σ → Prop}
    (hp : d.Triple t P p (Post (fun a => Q (.ok a)) E))
    (hh : ∀ e, d.Triple t (E e) (handler e) Q) : d.Triple t P (p.tryCatch handler) Q := by
  intro s inv h
  refine safe_then (f := fun p => p.tryCatch handler) (fun _ _ => rfl) inv (hp s inv h) ?_ ?_
  · exact fun a s inv ha => ha
  · exact fun e s inv he => hh e s inv he

theorem triple_tryFinally {p : Program S ε α} {cleanup : Program S ε Unit} {R : α → σ → Prop}
    {E : ε → σ → Prop} (hp : d.Triple t P p (Post R E))
    (ok : ∀ a, d.Triple t (R a) cleanup (Post (fun _ => Q (.ok a)) fun e => Q (.error e)))
    (raise : ∀ e, d.Triple t (E e) cleanup (Post (fun _ => Q (.error e)) fun e' => Q (.error e'))) :
    d.Triple t P (p.tryFinally cleanup) Q := by
  intro s inv h
  refine safe_then (f := fun p => p.tryFinally cleanup) (fun _ _ => rfl) inv (hp s inv h) ?_ ?_
  · intro a s inv ha
    exact triple_bind (ok a) (fun _ => triple_ret fun _ _ h => h) s inv ha
  · intro e s inv he
    exact triple_bind (raise e) (fun _ => triple_raise fun _ _ h => h) s inv he

theorem triple_attempt {p : Program S ε α} {Q : Except ε (Except ε α) → σ → Prop}
    (hp : d.Triple t P p fun r => Q (.ok r)) : d.Triple t P p.attempt Q := by
  intro s inv h
  exact safe_then (f := Program.attempt) (fun _ _ => rfl) inv (hp s inv h)
    (fun _ _ _ ha => ha) (fun _ _ _ he => he)

theorem triple_ite {c : Prop} [Decidable c] {p q : Program S ε α}
    (hp : c → d.Triple t P p Q) (hq : ¬ c → d.Triple t P q Q) :
    d.Triple t P (if c then p else q) Q := by
  by_cases hc : c
  · rw [if_pos hc]
    exact hp hc
  · rw [if_neg hc]
    exact hq hc

/-- A loop keeps what each of its rounds keeps. -/
theorem triple_foldlM {γ : Type} {I : α → σ → Prop} {E : ε → σ → Prop} {f : α → γ → Program S ε α}
    {xs : List γ} (round : ∀ a, ∀ x ∈ xs, d.Triple t (I a) (f a x) (Post I E)) (a : α) :
    d.Triple t (I a) (xs.foldlM f a) (Post I E) := by
  induction xs generalizing a with
  | nil => exact triple_ret fun _ _ h => h
  | cons x xs ih =>
      rw [List.foldlM_cons]
      exact triple_bind (round a x (List.mem_cons_self ..)) fun b =>
        ih (fun a y hy => round a y (List.mem_cons_of_mem _ hy)) b

/-- A program keeps what each of its calls keeps. -/
theorem triple_calls {C : S.Op → Prop} {p : Program S ε α} (made : p.Calls C) (stable : d.Stable t P)
    (good : ∀ op s, C op → d.inv s → P s → d.allowed t op s → d.good t op s)
    (step : ∀ op s r s', C op → d.inv s → P s → d.allowed t op s → m.exec t op s r s' →
      d.Keeps t s s' ∧ P s') : d.Triple t P p fun _ => P := by
  induction p with
  | ret a => exact triple_ret fun _ _ h => h
  | raise e => exact triple_raise fun _ _ h => h
  | call op next ih =>
      intro s _ h s₁ hrely inv ok
      have hP := stable s s₁ h hrely
      refine ⟨good op s₁ made.1 inv hP ok, fun r s₂ exec => ?_⟩
      obtain ⟨keeps, hP₂⟩ := step op s₁ r s₂ made.1 inv hP ok exec
      exact ⟨keeps, ih r (made.2 r) s₂ keeps.1 hP₂⟩

/-! ### Runs -/

/-- What the discipline guarantees of a pool. -/
structure Sound (d : Discipline m) (c : Pool S ε σ) : Prop where
  inv : d.inv c.state
  idle : ∀ t, c.threads t = none → d.idle t c.state
  safe : ∀ t p, c.threads t = some p →
    ∃ s, d.Safe t (fun _ => d.idle t) p s ∧ d.rely t s c.state

variable {starts : Program S ε Unit → Prop}

/-- The threads other than `t` after a step of `t`. -/
theorem sound_update {c : Pool S ε σ} (sound : d.Sound c) {x : Option (Program S ε Unit)} {s' : σ}
    (keeps : d.Keeps t c.state s') (idle : x = none → d.idle t s')
    (safe : ∀ p, x = some p → d.Safe t (fun _ => d.idle t) p s') :
    d.Sound ⟨Function.update c.threads t x, s'⟩ := by
  refine ⟨keeps.1, ?_, ?_⟩
  · intro u hu
    by_cases same : u = t
    · subst same
      exact idle (by simpa using hu)
    · simp only [Function.update_of_ne same] at hu
      exact d.idle_stable (sound.idle u hu) (keeps.2 u same)
  · intro u p hu
    by_cases same : u = t
    · subst same
      exact ⟨s', safe p (by simpa using hu), d.rely_refl _ _⟩
    · simp only [Function.update_of_ne same] at hu
      obtain ⟨s, hsafe, hrely⟩ := sound.safe u p hu
      exact ⟨s, hsafe, d.rely_trans hrely (keeps.2 u same)⟩

theorem step_sound (programs : ∀ p, starts p → ∀ t, d.Triple t (d.idle t) p fun _ => d.idle t)
    {c c' : Pool S ε σ} (sound : d.Sound c) (step : Pool.Step m starts d.allowed c c') :
    d.Sound c' := by
  have stay : ∀ t, d.Keeps t c.state c.state := fun t => ⟨sound.inv, fun u _ => d.rely_refl u _⟩
  cases step with
  | drift h =>
      obtain ⟨inv, rely⟩ := d.drift_ok sound.inv h
      refine ⟨inv, fun t ht => d.idle_stable (sound.idle t ht) (rely t), fun t p hp => ?_⟩
      obtain ⟨s, hsafe, hrely⟩ := sound.safe t p hp
      exact ⟨s, hsafe, d.rely_trans hrely (rely t)⟩
  | start t idle h =>
      refine sound_update sound (stay t) nofun ?_
      rintro p ⟨⟩
      exact programs _ h t _ sound.inv (sound.idle t idle)
  | @call threads s s' t op next at_call ok r h =>
      obtain ⟨s₀, hsafe, hrely⟩ := sound.safe t _ at_call
      obtain ⟨keeps, rest⟩ := (hsafe s hrely sound.inv ok).2 r s' h
      refine sound_update sound keeps nofun ?_
      rintro p ⟨⟩
      exact rest
  | finish t done =>
      obtain ⟨s, hsafe, hrely⟩ := sound.safe t _ done
      exact sound_update sound (stay t) (fun _ => d.idle_stable hsafe hrely) nofun
  | fail t failed =>
      obtain ⟨s, hsafe, hrely⟩ := sound.safe t _ failed
      exact sound_update sound (stay t) (fun _ => d.idle_stable hsafe hrely) nofun

/-- Every run of safe programs is sound. -/
theorem reachable_sound
    (programs : ∀ p, starts p → ∀ t, d.Triple t (d.idle t) p fun _ => d.idle t) {s : σ}
    (inv : d.inv s) (idle : ∀ t, d.idle t s) {c : Pool S ε σ}
    (run : Pool.Reachable m starts d.allowed s c) : d.Sound c := by
  induction run with
  | refl => exact ⟨inv, fun t _ => idle t, nofun⟩
  | tail _ step ih => exact step_sound programs ih step

/-- A call that a sound pool is about to make is good. -/
theorem Sound.good {c : Pool S ε σ} (sound : d.Sound c) {op : S.Op}
    {next : Except ε (S.Res op) → Program S ε Unit} (at_call : c.threads t = some (.call op next))
    (allowed : d.allowed t op c.state) : d.good t op c.state := by
  obtain ⟨s, hsafe, hrely⟩ := sound.safe t _ at_call
  exact (hsafe c.state hrely sound.inv allowed).1

end Discipline

end Effect
