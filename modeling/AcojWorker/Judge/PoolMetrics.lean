import AcojWorker.Data.Climb
import AcojWorker.Python.Value

/-!
# Metrics of the sandbox pool

The pool counts its events, and after an event a callback carries the counts over into exported
counters: it adds what has been counted since the snapshot it has seen last. Snapshots that are
applied out of their order move the last one back, and what lies between is added again.
-/

namespace AcojWorker.PoolMetrics

open Climb

/-- `pool.stats()`; two entries may be missing. -/
structure Snapshot where
  availableCount : ℕ
  activeCount : ℕ
  totalCount : ℕ
  borrowCount : ℕ
  borrowLastWaitMs : Option ℚ
  emergencyCount : ℕ
  replacedCount : ℕ
  queueTimeoutCount : Option ℕ

/-- The exported metrics, and the counts seen last. -/
structure Metrics where
  workers : String → ℕ
  borrowTotal : ℕ
  borrowWaitMs : List ℚ
  emergencyTotal : ℕ
  replacedTotal : ℕ
  queueTimeoutTotal : ℕ
  lastBorrow : ℕ
  lastEmergency : ℕ
  lastReplaced : ℕ
  lastQueueTimeout : ℕ

/-- `register_sandbox_pool_metrics`: nothing has been seen of the pool. -/
def Metrics.register (m : Metrics) : Metrics :=
  { m with lastBorrow := 0, lastEmergency := 0, lastReplaced := 0, lastQueueTimeout := 0 }

/-- `on_event`, on the snapshot it has taken; `max(0, _)` is the difference of naturals. -/
def onEvent (m : Metrics) (s : Snapshot) : Metrics :=
  let borrowDelta := s.borrowCount - m.lastBorrow
  let emergencyDelta := s.emergencyCount - m.lastEmergency
  let replacedDelta := s.replacedCount - m.lastReplaced
  let queueTimeoutDelta := s.queueTimeoutCount.getD 0 - m.lastQueueTimeout
  { workers := fun state =>
      if state = "available" then s.availableCount
      else if state = "active" then s.activeCount
      else if state = "total" then s.totalCount
      else m.workers state
    borrowTotal := m.borrowTotal + borrowDelta
    borrowWaitMs :=
      if borrowDelta ≠ 0 then m.borrowWaitMs ++ [s.borrowLastWaitMs.getD 0] else m.borrowWaitMs
    emergencyTotal := m.emergencyTotal + emergencyDelta
    replacedTotal := m.replacedTotal + replacedDelta
    queueTimeoutTotal := m.queueTimeoutTotal + queueTimeoutDelta
    lastBorrow := s.borrowCount
    lastEmergency := s.emergencyCount
    lastReplaced := s.replacedCount
    lastQueueTimeout := s.queueTimeoutCount.getD 0 }

/-! ### The four counters -/

inductive Counter where
  | borrow
  | emergency
  | replaced
  | queueTimeout
deriving DecidableEq, Repr

def Snapshot.count (s : Snapshot) : Counter → ℕ
  | .borrow => s.borrowCount
  | .emergency => s.emergencyCount
  | .replaced => s.replacedCount
  | .queueTimeout => s.queueTimeoutCount.getD 0

def Metrics.total (m : Metrics) : Counter → ℕ
  | .borrow => m.borrowTotal
  | .emergency => m.emergencyTotal
  | .replaced => m.replacedTotal
  | .queueTimeout => m.queueTimeoutTotal

def Metrics.last (m : Metrics) : Counter → ℕ
  | .borrow => m.lastBorrow
  | .emergency => m.lastEmergency
  | .replaced => m.lastReplaced
  | .queueTimeout => m.lastQueueTimeout

/-- The counts of a counter in the order in which the snapshots are applied. -/
def counts (c : Counter) (applied : List Snapshot) : List ℕ := applied.map fun s => s.count c

@[simp] theorem register_total (m : Metrics) (c : Counter) : m.register.total c = m.total c := by
  cases c <;> rfl

@[simp] theorem register_last (m : Metrics) (c : Counter) : m.register.last c = 0 := by
  cases c <;> rfl

theorem onEvent_total (m : Metrics) (s : Snapshot) (c : Counter) :
    (onEvent m s).total c = m.total c + (s.count c - m.last c) := by
  cases c <;> rfl

theorem onEvent_last (m : Metrics) (s : Snapshot) (c : Counter) :
    (onEvent m s).last c = s.count c := by
  cases c <;> rfl

/-- A run adds the climb of its counts. -/
theorem run_total (m : Metrics) (applied : List Snapshot) (c : Counter) :
    (applied.foldl onEvent m).total c = m.total c + climb (m.last c) (counts c applied) := by
  induction applied generalizing m with
  | nil => rfl
  | cons s applied ih =>
      rw [List.foldl_cons, ih, onEvent_total, onEvent_last, Nat.add_assoc]
      rfl

/-! ### Counting too much -/

/-- What the run has added to a counter since the registration. -/
def added (m : Metrics) (applied : List Snapshot) (c : Counter) : ℕ :=
  (applied.foldl onEvent m.register).total c - m.total c

/-- The largest count among the snapshots; no snapshot has counted nothing. -/
def largestCount (c : Counter) (applied : List Snapshot) : ℕ := (counts c applied).foldr max 0

/-- The snapshots, in the order of the pool: no count falls. -/
def Cumulative (taken : List Snapshot) : Prop :=
  taken.Pairwise fun s₁ s₂ => ∀ c, s₁.count c ≤ s₂.count c

/-- At no time more has been added than was ever counted, and in order just as much. -/
structure NeverOverCounts (m : Metrics) (applied : List Snapshot) : Prop where
  bounded : ∀ sofar, sofar <+: applied → ∀ c, added m sofar c ≤ largestCount c sofar
  exact : Cumulative applied →
    ∀ sofar, sofar <+: applied → ∀ c, added m sofar c = largestCount c sofar

theorem added_eq (m : Metrics) (applied : List Snapshot) (c : Counter) :
    added m applied c = climb 0 (counts c applied) := by
  rw [added, run_total, register_total, register_last, Nat.add_sub_cancel_left]

theorem bounded_iff (m : Metrics) (applied : List Snapshot) (c : Counter) :
    (∀ sofar, sofar <+: applied → added m sofar c ≤ largestCount c sofar) ↔
      Peaked (counts c applied) := by
  have parts : (∀ sofar, sofar <+: applied → added m sofar c ≤ largestCount c sofar) ↔
      ∀ part, part <+: counts c applied → 0 + climb 0 part ≤ largest 0 part := by
    constructor
    · intro bounded part sub
      obtain ⟨sofar, first, rfl⟩ := List.prefix_map_iff.mp sub
      have enough := bounded sofar first
      rw [added_eq] at enough
      rwa [Nat.zero_add]
    · intro bounded sofar sub
      rw [added_eq, ← Nat.zero_add (climb _ _)]
      exact bounded (counts c sofar) (sub.map _)
  rw [parts, climb_le_largest_iff, peaked_zero_cons]

/-- In the order of the pool nothing is lost and nothing is counted twice. -/
theorem added_cumulative {applied : List Snapshot} (inOrder : Cumulative applied) (m : Metrics)
    (c : Counter) : added m applied c = largestCount c applied := by
  have rising : (counts c applied).Pairwise (· ≤ ·) :=
    List.pairwise_map.mpr (inOrder.imp fun earlier => earlier c)
  apply Nat.le_antisymm
  · apply (bounded_iff m applied c).mpr ⟨counts c applied, [], (List.append_nil _).symm, rising, .nil⟩
    exact List.prefix_refl applied
  · rw [added_eq, ← Nat.zero_add (climb _ _)]
    exact largest_le_climb 0 (counts c applied)

/-- The counters are right exactly if each count, once it has been moved back, does not rise any
more. -/
theorem neverOverCounts_iff (m : Metrics) (applied : List Snapshot) :
    NeverOverCounts m applied ↔ ∀ c, Peaked (counts c applied) := by
  constructor
  · intro never c
    exact (bounded_iff m applied c).mp fun sofar sub => never.bounded sofar sub c
  · intro peaked
    refine ⟨fun sofar sub c => (bounded_iff m applied c).mpr (peaked c) sofar sub, ?_⟩
    intro inOrder sofar sub
    exact added_cumulative (inOrder.sublist sub.sublist) m

/-- A snapshot of a pool that has been borrowed from `n` times. -/
def borrowed (n : ℕ) : Snapshot :=
  { availableCount := 1, activeCount := 0, totalCount := 1, borrowCount := n,
    borrowLastWaitMs := none, emergencyCount := 0, replacedCount := 0, queueTimeoutCount := none }

/-- The metrics of a new process. -/
def Metrics.initial : Metrics := ⟨fun _ => 0, 0, [], 0, 0, 0, 0, 0, 0, 0⟩

/-- Of three snapshots the first two are applied in the wrong order: two borrows count twice. -/
theorem overCounts_swapped : Cumulative [borrowed 3, borrowed 5, borrowed 7] ∧
    [borrowed 5, borrowed 3, borrowed 7].Perm [borrowed 3, borrowed 5, borrowed 7] ∧
    ¬ NeverOverCounts .initial [borrowed 5, borrowed 3, borrowed 7] := by
  refine ⟨?_, .swap .., fun never => ?_⟩
  · have ordered : ∀ i j, i ≤ j → ∀ c, (borrowed i).count c ≤ (borrowed j).count c := by
      intro i j le c
      cases c
      · exact le
      all_goals exact Nat.le_refl _
    simp only [Cumulative, List.pairwise_cons, List.mem_cons, List.not_mem_nil, or_false,
      forall_eq_or_imp, forall_eq, false_imp_iff, implies_true, List.Pairwise.nil, and_true]
    exact ⟨⟨ordered 3 5 (by decide), ordered 3 7 (by decide)⟩, ordered 5 7 (by decide)⟩
  · have bounded := never.bounded _ (List.prefix_refl _) .borrow
    exact absurd bounded (by decide)

end AcojWorker.PoolMetrics
