import AcojWorker.Effect.Interleaving

/-!
# Invariants of all runs

The simplest discipline: every call keeps an invariant of the shared state and is good there,
and nothing is known of a single thread. Programs are checked rule by rule; what they return
may be known by a property of the value alone.
-/

namespace Effect

/-- An invariant that survives what happens between calls, and the calls that are good. -/
structure Guard {S : Signature} {ε σ : Type} (m : Machine S ε σ) where
  inv : σ → Prop
  good : S.Op → σ → Prop
  drift_ok : ∀ {s s'}, inv s → m.drift s s' → inv s'

namespace Guard

open Discipline

variable {S : Signature} {ε σ α β : Type} {m : Machine S ε σ} (g : Guard m)

def discipline : Discipline m where
  inv := g.inv
  rely _ _ _ := True
  idle _ _ := True
  allowed _ _ _ := True
  good _ := g.good
  rely_refl _ _ := trivial
  rely_trans _ _ := trivial
  idle_stable _ _ := trivial
  drift_ok inv h := ⟨g.drift_ok inv h, fun _ => trivial⟩

/-- The program makes good calls only, each of them keeps the invariant, and it returns values
with `Q`. -/
def Maintains (p : Program S ε α) (Q : α → Prop) : Prop :=
  ∀ t, g.discipline.Triple t (fun _ => True) p (Post (fun a _ => Q a) fun _ _ => True)

variable {g} {Q Q' : α → Prop} {R : β → Prop}

theorem maintains_ret {a : α} (ha : Q a) : g.Maintains (.ret a) Q :=
  fun _ => triple_ret fun _ _ _ => ha

theorem maintains_raise (e : ε) : g.Maintains (.raise e) Q :=
  fun _ => triple_raise fun _ _ _ => trivial

theorem maintains_mono {p : Program S ε α} (hp : g.Maintains p Q) (weaker : ∀ a, Q a → Q' a) :
    g.Maintains p Q' := by
  refine fun t => triple_post (hp t) ?_
  rintro (e | a) _ _ h
  · exact trivial
  · exact weaker a h

theorem maintains_bind {p : Program S ε β} {f : β → Program S ε α} (hp : g.Maintains p R)
    (hf : ∀ b, R b → g.Maintains (f b) Q) : g.Maintains (p >>= f) Q :=
  fun t => triple_bind (R := fun b _ => R b) (hp t) fun b s inv hb => hf b hb t s inv trivial

/-- A step of whose value nothing is used. -/
theorem maintains_step {p : Program S ε β} {f : β → Program S ε α} (hp : g.Maintains p R)
    (hf : ∀ b, g.Maintains (f b) Q) : g.Maintains (p >>= f) Q :=
  maintains_bind hp fun b _ => hf b

theorem maintains_lift {x : Except ε α} (ok : ∀ a, x = .ok a → Q a) : g.Maintains (liftM x) Q :=
  fun _ => triple_lift (fun a _ ha _ _ => ok a ha) fun _ _ _ _ _ => trivial

theorem maintains_tryCatch {p : Program S ε α} {handler : ε → Program S ε α}
    (hp : g.Maintains p Q) (hh : ∀ e, g.Maintains (handler e) Q) :
    g.Maintains (p.tryCatch handler) Q :=
  fun t => triple_tryCatch (hp t) fun e => hh e t

theorem maintains_attempt {p : Program S ε α} (hp : g.Maintains p Q) :
    g.Maintains p.attempt fun r => ∀ a, r = .ok a → Q a := by
  refine fun t => triple_attempt (triple_post (hp t) ?_)
  rintro (e | a) _ _ h
  · exact nofun
  · exact fun b same => Except.ok.inj same ▸ h

theorem maintains_ite {c : Prop} [Decidable c] {p q : Program S ε α}
    (hp : c → g.Maintains p Q) (hq : ¬ c → g.Maintains q Q) :
    g.Maintains (if c then p else q) Q :=
  fun t => triple_ite (fun hc => hp hc t) fun hc => hq hc t

/-- A loop maintains what each of its rounds maintains. -/
theorem maintains_foldlM {γ : Type} {f : α → γ → Program S ε α} {xs : List γ}
    (round : ∀ a, Q a → ∀ x ∈ xs, g.Maintains (f a x) Q) {a : α} (start : Q a) :
    g.Maintains (xs.foldlM f a) Q := by
  refine fun t => triple_pre (triple_foldlM (I := fun a _ => Q a) ?_ a) fun _ _ _ => start
  exact fun a x hx s inv ha => round a ha x hx t s inv trivial

theorem maintains_perform {op : S.Op} {Q : S.Res op → Prop} (good : ∀ s, g.inv s → g.good op s)
    (step : ∀ t s r s', g.inv s → m.exec t op s r s' → g.inv s' ∧ ∀ a, r = .ok a → Q a) :
    g.Maintains (.perform op) Q := by
  refine fun t => triple_perform (fun _ _ _ _ => trivial) (fun s inv _ _ => good s inv) ?_
  intro s r s' inv _ _ h
  obtain ⟨inv', answer⟩ := step t s r s' inv h
  refine ⟨⟨inv', fun _ _ => trivial⟩, ?_⟩
  cases r with
  | ok a => exact answer a rfl
  | error e => exact trivial

/-- A program all of whose calls are good and keep the invariant. -/
theorem maintains_calls {C : S.Op → Prop} {p : Program S ε α} (made : p.Calls C)
    (good : ∀ op s, C op → g.inv s → g.good op s)
    (keeps : ∀ t op s r s', C op → g.inv s → m.exec t op s r s' → g.inv s') :
    g.Maintains p fun _ => True := by
  induction p with
  | ret a => exact maintains_ret trivial
  | raise e => exact maintains_raise e
  | call op next ih =>
      intro t s _ _ s₁ _ inv _
      refine ⟨good op s₁ made.1 inv, fun r s₂ exec => ?_⟩
      have inv' := keeps t op s₁ r s₂ made.1 inv exec
      exact ⟨⟨inv', fun _ _ => trivial⟩, ih r (made.2 r) t s₂ inv' trivial⟩

/-- A run from any pool in which the invariant holds and all threads maintain it. -/
theorem steps {starts : Program S ε Unit → Prop}
    (programs : ∀ p, starts p → g.Maintains p fun _ => True) {c c' : Pool S ε σ}
    (inv : g.inv c.state) (threads : ∀ t p, c.threads t = some p → g.Maintains p fun _ => True)
    (run : Relation.ReflTransGen (Pool.Step m starts fun _ _ _ => True) c c') :
    g.inv c'.state := by
  have unit : ∀ p : Program S ε Unit, g.Maintains p (fun _ => True) →
      ∀ t, g.discipline.Triple t (fun _ => True) p fun _ _ => True :=
    fun p hp t => triple_post (hp t) fun _ _ _ _ => trivial
  have sound : g.discipline.Sound c := by
    refine ⟨inv, fun _ _ => trivial, fun t p hp => ⟨c.state, ?_, trivial⟩⟩
    exact unit p (threads t p hp) t c.state inv trivial
  have sound' : g.discipline.Sound c' := by
    induction run with
    | refl => exact sound
    | tail _ step ih => exact step_sound (fun p hp => unit p (programs p hp)) ih step
  exact sound'.inv

/-- In every run of such programs the invariant holds, and every call about to be made is
good. -/
theorem reachable {starts : Program S ε Unit → Prop}
    (programs : ∀ p, starts p → g.Maintains p fun _ => True) {s : σ} (inv : g.inv s)
    {c : Pool S ε σ} (run : Pool.Reachable m starts (fun _ _ _ => True) s c) :
    g.inv c.state ∧ ∀ t op next, c.threads t = some (.call op next) → g.good op c.state := by
  have sound : g.discipline.Sound c := reachable_sound
    (fun p hp t => triple_post (programs p hp t) fun _ _ _ _ => trivial) inv (fun _ => trivial) run
  exact ⟨sound.inv, fun t op next at_call => sound.good at_call trivial⟩

end Guard

end Effect
