import AcojWorker.Effect.Schedule
import Mathlib.Logic.Hydra
import Mathlib.Order.Preorder.Finite
import Mathlib.Tactic.Abel

/-!
# Progress

Threads at work cannot go on forever, because each of their steps replaces a program by what
is left of it. They can be stuck where all of them wait for locks. A thread that asks for a lock
only if it lies above all the locks the thread holds is never part of such a circle.
-/

namespace Effect

open Relation

variable {S : Signature} {ε σ L : Type}

section Turns

variable (m : Machine S ε σ)

/-- The steps of a thread at work. -/
inductive Pool.Turn (t : Nat) : Pool S ε σ → Pool S ε σ → Prop where
  | call {threads : Nat → Option (Program S ε Unit)} {s s' : σ} {op : S.Op}
      {next : Except ε (S.Res op) → Program S ε Unit} (at_call : threads t = some (.call op next))
      {r : Except ε (S.Res op)} (h : m.exec t op s r s') :
      Turn t ⟨threads, s⟩ ⟨Function.update threads t (some (next r)), s'⟩
  | finish {threads : Nat → Option (Program S ε Unit)} {s : σ}
      (done : threads t = some (.ret ())) :
      Turn t ⟨threads, s⟩ ⟨Function.update threads t none, s⟩
  | fail {threads : Nat → Option (Program S ε Unit)} {s : σ} {e : ε}
      (failed : threads t = some (.raise e)) :
      Turn t ⟨threads, s⟩ ⟨Function.update threads t none, s⟩

/-- The state drifts, and some thread at work takes its next step. -/
def Pool.Onward (c c' : Pool S ε σ) : Prop :=
  ∃ s t, ReflTransGen m.drift c.state s ∧ Pool.Turn m t ⟨c.threads, s⟩ c'

/-- However the threads at work go on, after finitely many steps all of them are at their end,
and then `Q` holds. -/
inductive Pool.Completes (Q : σ → Prop) : Pool S ε σ → Prop where
  | intro {c : Pool S ε σ} (rest : (∀ t, c.threads t = none) → Q c.state)
      (moves : (∃ t, c.threads t ≠ none) → ∃ c', Pool.Onward m c c')
      (next : ∀ c', Pool.Onward m c c' → Completes Q c') : Completes Q c

end Turns

/-- The threads at work. -/
def Pool.busy (c : Pool S ε σ) : Set Nat := {t | c.threads t ≠ none}

variable {m : Machine S ε σ} {starts : Program S ε Unit → Prop} {c c' : Pool S ε σ}

theorem steps_onward (h : Pool.Onward m c c') :
    ReflTransGen (Pool.Step m starts fun _ _ _ => True) c c' := by
  obtain ⟨s, t, drift, turn⟩ := h
  have drifted : ReflTransGen (Pool.Step m starts fun _ _ _ => True) c ⟨c.threads, s⟩ := by
    clear turn
    induction drift with
    | refl => exact .refl
    | tail _ h ih => exact ih.tail (.drift h)
  refine drifted.tail ?_
  cases turn with
  | call at_call h => exact .call t at_call trivial h
  | finish done => exact .finish t done
  | fail failed => exact .fail t failed

theorem busy_update {threads : Nat → Option (Program S ε Unit)} {t : Nat}
    {x : Option (Program S ε Unit)} {s s' : σ} (finite : Set.Finite (Pool.busy ⟨threads, s⟩)) :
    Set.Finite (Pool.busy ⟨Function.update threads t x, s'⟩) := by
  refine (finite.insert t).subset ?_
  intro u hu
  by_cases same : u = t
  · exact .inl same
  · simp only [Pool.busy, Set.mem_ofPred_eq, Function.update_of_ne same] at hu
    exact .inr hu

theorem finite_steps {allowed : Nat → S.Op → σ → Prop}
    (run : ReflTransGen (Pool.Step m starts allowed) c c') (finite : c.busy.Finite) :
    c'.busy.Finite := by
  induction run with
  | refl => exact finite
  | tail _ step ih =>
      cases step with
      | drift h => exact ih
      | start t idle h => exact busy_update ih
      | call t at_call ok h => exact busy_update ih
      | finish t done => exact busy_update ih
      | fail t failed => exact busy_update ih

/-! ### Every run of the threads at work ends -/

/-- What a call leaves of a program. -/
def Remains (p q : Program S ε Unit) : Prop := ∃ op next r, q = .call op next ∧ p = next r

theorem remains_wellFounded : WellFounded (@Remains S ε) := by
  refine ⟨fun p => ?_⟩
  induction p with
  | ret a =>
      refine .intro _ ?_
      rintro q ⟨op, next, r, same, rest⟩
      cases same
  | raise e =>
      refine .intro _ ?_
      rintro q ⟨op, next, r, same, rest⟩
      cases same
  | call op next ih =>
      refine .intro _ ?_
      rintro q ⟨op', next', r, same, rfl⟩
      cases same
      exact ih r

/-- The programs of some threads. -/
def Pool.work (T : Finset Nat) (c : Pool S ε σ) : Multiset (Program S ε Unit) :=
  T.val.filterMap c.threads

theorem filterMap_update {A : Multiset Nat} {t : Nat} (out : t ∉ A)
    (threads : Nat → Option (Program S ε Unit)) (x : Option (Program S ε Unit)) :
    A.filterMap (Function.update threads t x) = A.filterMap threads := by
  induction A using Multiset.induction with
  | empty => rfl
  | cons u A ih =>
      obtain ⟨other, out⟩ := not_or.mp (mt Multiset.mem_cons.mpr out)
      have same : Function.update threads t x u = threads u := Function.update_of_ne (Ne.symm other) ..
      cases hu : threads u with
      | none =>
          rw [Multiset.filterMap_cons_none _ _ (same.trans hu),
            Multiset.filterMap_cons_none _ _ hu, ih out]
      | some p =>
          rw [Multiset.filterMap_cons_some _ _ _ (same.trans hu),
            Multiset.filterMap_cons_some _ _ _ hu, ih out]

/-- A step takes a program away, or puts what remains of it in its place. -/
theorem work_turn {T : Finset Nat} {t : Nat} (mem : t ∈ T) (h : Pool.Turn m t c c') :
    CutExpand Remains (c'.work T) (c.work T) := by
  have others : ∀ (threads : Nat → Option (Program S ε Unit)) (x : Option (Program S ε Unit)),
      (T.erase t).val.filterMap (Function.update threads t x) =
        (T.erase t).val.filterMap threads :=
    fun threads x => filterMap_update (T.notMem_erase t) threads x
  have split : T.val = t ::ₘ (T.erase t).val := by
    rw [Finset.erase_val, Multiset.cons_erase mem]
  cases h with
  | @call threads s s' op next at_call r h =>
      refine ⟨{next r}, .call op next, ?_, ?_⟩
      · intro q hq
        exact ⟨op, next, r, rfl, Multiset.mem_singleton.mp hq⟩
      · simp only [Pool.work, split]
        rw [Multiset.filterMap_cons_some _ _ _ (Function.update_self ..), others,
          Multiset.filterMap_cons_some _ _ _ at_call, ← Multiset.singleton_add,
          ← Multiset.singleton_add]
        abel
  | @finish threads s done =>
      refine ⟨0, .ret (), by simp, ?_⟩
      simp only [Pool.work, split]
      rw [Multiset.filterMap_cons_none _ _ (Function.update_self ..), others,
        Multiset.filterMap_cons_some _ _ _ done, ← Multiset.singleton_add]
      abel
  | @fail threads s e failed =>
      refine ⟨0, .raise e, by simp, ?_⟩
      simp only [Pool.work, split]
      rw [Multiset.filterMap_cons_none _ _ (Function.update_self ..), others,
        Multiset.filterMap_cons_some _ _ _ failed, ← Multiset.singleton_add]
      abel

theorem turn_busy {t : Nat} (h : Pool.Turn m t c c') : t ∈ c.busy ∧ c'.busy ⊆ c.busy := by
  have inside : ∀ {threads : Nat → Option (Program S ε Unit)} {p : Program S ε Unit}
      {x : Option (Program S ε Unit)} {s s' : σ}, threads t = some p →
      t ∈ Pool.busy ⟨threads, s⟩ ∧
        Pool.busy ⟨Function.update threads t x, s'⟩ ⊆ Pool.busy ⟨threads, s⟩ := by
    intro threads p x s s' at_work
    have here : t ∈ Pool.busy ⟨threads, s⟩ := by simp [Pool.busy, at_work]
    refine ⟨here, fun u hu => ?_⟩
    by_cases same : u = t
    · exact same ▸ here
    · simp only [Pool.busy, Set.mem_ofPred_eq, Function.update_of_ne same] at hu
      exact hu
  cases h with
  | call at_call h => exact inside at_call
  | finish done => exact inside done
  | fail failed => exact inside failed

/-- Finitely many threads take finitely many steps. -/
theorem onward_acc (finite : c.busy.Finite) :
    Acc (fun c' c : Pool S ε σ => Pool.Onward m c c') c := by
  suffices bounded : ∀ (T : Finset Nat) (w : Multiset (Program S ε Unit)) (c : Pool S ε σ),
      c.busy ⊆ T → c.work T = w → Acc (fun c' c : Pool S ε σ => Pool.Onward m c c') c by
    exact bounded finite.toFinset _ c (by simp) rfl
  intro T w
  induction w using remains_wellFounded.cutExpand.induction with
  | _ w ih =>
      rintro c covered rfl
      refine .intro _ ?_
      rintro c' ⟨s, t, -, turn⟩
      obtain ⟨here, fewer⟩ := turn_busy turn
      exact ih _ (work_turn (c := ⟨c.threads, s⟩) (covered here) turn) c' (fewer.trans covered) rfl

/-! ### Locks -/

/-- The lock that a call waits for, and who holds which locks. -/
structure Locks (S : Signature) (σ L : Type) where
  asks : S.Op → Option L
  Holds : σ → Nat → L → Prop
  exclusive : ∀ {s t u l}, Holds s t l → Holds s u l → t = u

namespace Locks

variable [PartialOrder L] (k : Locks S σ L)

/-- A call is answered unless it waits for a lock of another thread. Threads that are not at
work hold no lock, and the others ask for locks above those they hold. -/
structure Orderly (m : Machine S ε σ) (c : Pool S ε σ) : Prop where
  answers : ∀ t op, (∀ l, k.asks op = some l → ∀ u, k.Holds c.state u l → u = t) →
    ∃ r s', m.exec t op c.state r s'
  idle : ∀ t, c.threads t = none → ∀ l, ¬ k.Holds c.state t l
  below : ∀ t op next l, c.threads t = some (.call op next) → k.asks op = some l →
    ∀ l', k.Holds c.state t l' → l' ≤ l

/-- The lock a thread is about to ask for. -/
def asked (c : Pool S ε σ) (t : Nat) : Option L :=
  match c.threads t with
  | some (.call op _) => k.asks op
  | _ => none

variable {k}

/-- A thread at work that cannot go on waits for a lock of another one. -/
theorem turn_or_waits (orderly : k.Orderly m c) {t : Nat} (busy : t ∈ c.busy) :
    (∃ c', Pool.Turn m t c c') ∨
      ∃ l u, k.asked c t = some l ∧ k.Holds c.state u l ∧ u ≠ t := by
  obtain ⟨threads, s⟩ := c
  obtain ⟨p, at_work⟩ := Option.ne_none_iff_exists'.mp busy
  change threads t = some p at at_work
  cases p with
  | ret a => exact .inl ⟨_, .finish at_work⟩
  | raise e => exact .inl ⟨_, .fail at_work⟩
  | call op next =>
      have here : k.asked ⟨threads, s⟩ t = k.asks op := by simp only [asked, at_work]
      by_cases free : ∀ l, k.asks op = some l → ∀ u, k.Holds s u l → u = t
      · obtain ⟨r, s', h⟩ := orderly.answers t op free
        exact .inl ⟨_, .call at_work h⟩
      · push Not at free
        obtain ⟨l, asks, u, holds, other⟩ := free
        exact .inr ⟨l, u, here.trans asks, holds, other⟩

/-- The locks that are waited for lie below the locks that their holders wait for. -/
theorem asked_below (orderly : k.Orderly m c) {t : Nat} {l l' : L} (asked : k.asked c t = some l)
    (holds : k.Holds c.state t l') : l' ≤ l := by
  rw [Locks.asked] at asked
  split at asked
  · next op next at_call => exact orderly.below t op next l at_call asked l' holds
  · cases asked

/-- As long as threads are at work, one of them can go on. -/
theorem Orderly.moves (orderly : k.Orderly m c) (finite : c.busy.Finite) {t : Nat}
    (busy : t ∈ c.busy) : ∃ u c', Pool.Turn m u c c' := by
  by_contra stuck
  push Not at stuck
  have waits : ∀ u ∈ c.busy, ∃ l v, k.asked c u = some l ∧ k.Holds c.state v l ∧ v ≠ u := by
    intro u hu
    obtain ⟨c', turn⟩ | waiting := turn_or_waits orderly hu
    · exact absurd turn (stuck u c')
    · exact waiting
  let W : Set L := {l | some l ∈ k.asked c '' c.busy}
  have some_waited : W.Nonempty := by
    obtain ⟨l, v, asked, -⟩ := waits t busy
    exact ⟨l, t, busy, asked⟩
  have few : W.Finite := (finite.image (k.asked c)).preimage (Option.some_injective L).injOn
  obtain ⟨l, ⟨u, hu, asked⟩, greatest⟩ := few.exists_maximal some_waited
  obtain ⟨l₁, v, asked₁, holds, other⟩ := waits u hu
  obtain rfl : l = l₁ := Option.some.inj (asked.symm.trans asked₁)
  -- the holder waits for a lock above `l`, hence for `l` itself
  have working : v ∈ c.busy := fun idle => orderly.idle v idle l holds
  obtain ⟨l', x, asked', holds', other'⟩ := waits v working
  have above : l ≤ l' := asked_below orderly asked' holds
  have same : l' = l := le_antisymm (greatest ⟨v, working, asked'⟩ above) above
  exact other' (k.exclusive (same ▸ holds') holds)

/-- Threads whose pools stay orderly come to their end. -/
theorem completes {I : Pool S ε σ → Prop} {Q : σ → Prop}
    (onward : ∀ c c', I c → Pool.Onward m c c' → I c') (orderly : ∀ c, I c → k.Orderly m c)
    (finite : ∀ c, I c → c.busy.Finite)
    (rest : ∀ c, I c → (∀ t, c.threads t = none) → Q c.state) (inv : I c) :
    Pool.Completes m Q c := by
  induction onward_acc (m := m) (finite c inv) with
  | intro c _ ih =>
      refine .intro (rest c inv) ?_ fun c' h => ih c' h (onward c c' inv h)
      rintro ⟨t, busy⟩
      obtain ⟨u, c', turn⟩ := (orderly c inv).moves (finite c inv) busy
      exact ⟨c', c.state, u, .refl, turn⟩

end Locks

end Effect
