import AcojWorker.Python.Value
import Mathlib.Logic.Function.Basic
import Mathlib.Logic.Relation
import Mathlib.Data.List.Basic

/-!
# The operation audit queue

Requests put audit events into a bounded queue, a worker task takes them out and emits each on
the event bus. `start` and `stop` may be called by several tasks. All of them run in one event
loop: what a task does up to its next suspension is one turn, and nothing but the handlers it
calls comes in between.

A `stop` detaches the queue, waits until it has been emptied, for a limited time, and cancels the
worker. A worker reads which queue it serves in its first turn only.
-/

namespace AcojWorker.AuditQueue

open Relation

structure OperationAuditEvent where
  resourceType : String
  action : String
  method : String
  path : String
  statusCode : Int
  accountId : Option String
  accountType : Option String
  requestId : Option String
  ip : Option String
  userAgent : Option String
deriving DecidableEq

/-! ### The state -/

/-- An `asyncio.Queue`, with all events that have ever been put into it. -/
structure Queue where
  items : List OperationAuditEvent
  unfinished : Nat
  accepted : List OperationAuditEvent

def Queue.empty : Queue := ⟨[], 0, []⟩

/-- `Queue.full`: a size that is not positive is no bound. -/
def Queue.full (maxsize : Int) (q : Queue) : Bool := 0 < maxsize ∧ maxsize ≤ q.items.length

def Queue.put (q : Queue) (event : OperationAuditEvent) : Queue where
  items := q.items ++ [event]
  unfinished := q.unfinished + 1
  accepted := q.accepted ++ [event]

/-- The task of a worker. -/
inductive Task where
  | created
  | serving (queue : Nat)
  | ended
deriving DecidableEq

/-- How far a call of `stop` has come since it took the queue. -/
inductive Stage where
  | joining
  | awaiting (timedOut : Bool)
  | returned (timedOut : Bool)
deriving DecidableEq

structure Stop where
  queue : Nat
  worker : Nat
  stage : Stage

/-- An event that is being emitted, and the subscriber to be called next. -/
structure Emission where
  queue : Nat
  event : OperationAuditEvent
  next : Nat

/-- The `n`-th start creates queue `n` and worker `n`. Besides the fields of the queue, the tasks
and the subscribers of the event bus, the state remembers which events have been recorded, what
each subscriber has been called with, and how many events had been recorded when it subscribed. -/
structure State where
  started : Nat
  queue : Option Nat
  worker : Option Nat
  queues : Nat → Queue
  tasks : Nat → Task
  cancelled : Nat → Bool
  stops : Nat → Option Stop
  turn : Option Nat
  emission : Option Emission
  subscribers : Nat
  received : Nat → List OperationAuditEvent
  since : Nat → Nat
  recorded : List (Nat × OperationAuditEvent)

namespace State

def init : State where
  started := 0
  queue := none
  worker := none
  queues := fun _ => .empty
  tasks := fun _ => .created
  cancelled := fun _ => false
  stops := fun _ => none
  turn := none
  emission := none
  subscribers := 0
  received := fun _ => []
  since := fun _ => 0
  recorded := []

def setQueue (s : State) (q : Nat) (x : Queue) : State :=
  { s with queues := Function.update s.queues q x }

def setTask (s : State) (w : Nat) (x : Task) : State :=
  { s with tasks := Function.update s.tasks w x }

/-- `worker.cancel()`: the next turn of the worker ends it. -/
def setCancelled (s : State) (w : Nat) : State :=
  { s with cancelled := Function.update s.cancelled w true }

def setStop (s : State) (i : Nat) (x : Stop) : State :=
  { s with stops := Function.update s.stops i (some x) }

/-- `self._worker and not self._worker.done()`. -/
def working (s : State) : Bool :=
  match s.worker with
  | some w => s.tasks w ≠ .ended
  | none => false

def start (s : State) : State :=
  if s.working then s
  else { s with
    started := s.started + 1
    queue := some s.started
    worker := some s.started }

/-- The first part of `stop`, under its lock: it takes the queue and the worker. -/
def stop (s : State) (i : Nat) : State :=
  match s.queue, s.worker with
  | some q, some w => { s with queue := none, worker := none }.setStop i ⟨q, w, .joining⟩
  | _, _ => { s with queue := none, worker := none }

/-- `stop` goes on when its queue has been joined or its time is over. -/
def cancel (s : State) (i : Nat) (st : Stop) (timedOut : Bool) : State :=
  (s.setCancelled st.worker).setStop i { st with stage := .awaiting timedOut }

/-- Whether the event is accepted. -/
def enqueue (maxsize : Int) (event : OperationAuditEvent) (s : State) : Bool × State :=
  match s.queue with
  | none => (false, s)
  | some q =>
      if (s.queues q).full maxsize then (false, s)
      else (true, s.setQueue q ((s.queues q).put event))

def subscribe (s : State) : State :=
  { s with
    subscribers := s.subscribers + 1
    received := Function.update s.received s.subscribers []
    since := Function.update s.since s.subscribers s.recorded.length }

/-- A turn of a worker begins. -/
def resume (s : State) (w : Nat) : State :=
  if s.cancelled w then s.setTask w .ended
  else match s.tasks w with
    | .created =>
        match s.queue with
        | none => s.setTask w .ended
        | some q => { s.setTask w (.serving q) with turn := some w }
    | .serving _ => { s with turn := some w }
    | .ended => s

/-- `queue.get()` of a queue that holds an event. -/
def get (s : State) (q : Nat) (event : OperationAuditEvent) (rest : List OperationAuditEvent) :
    State :=
  { s.setQueue q { s.queues q with items := rest } with emission := some ⟨q, event, 0⟩ }

/-- The next subscriber is called. Whether it raises an exception makes no difference. -/
def deliver (s : State) (m : Emission) : State :=
  { s with
    received := Function.update s.received m.next (s.received m.next ++ [m.event])
    emission := some { m with next := m.next + 1 } }

/-- All subscribers have been called, and the event is done. -/
def taskDone (s : State) (m : Emission) : State :=
  { s.setQueue m.queue
      { s.queues m.queue with unfinished := (s.queues m.queue).unfinished - 1 } with
    emission := none
    recorded := s.recorded ++ [(m.queue, m.event)] }

/-- Other code runs: it is another task's turn, or a subscriber has just been called. -/
def Outside (s : State) : Prop := s.turn = none ∨ ∃ m, s.emission = some m ∧ 0 < m.next

end State

/-- The steps of the event loop. -/
inductive Step (maxsize : Int) : State → State → Prop where
  | start {s : State} (loop : s.turn = none) : Step maxsize s s.start
  | stop {s : State} (i : Nat) (loop : s.turn = none) (new : s.stops i = none) :
      Step maxsize s (s.stop i)
  | joined {s : State} {i : Nat} {st : Stop} (loop : s.turn = none) (call : s.stops i = some st)
      (joining : st.stage = .joining) (empty : (s.queues st.queue).unfinished = 0) :
      Step maxsize s (s.cancel i st false)
  | timeout {s : State} {i : Nat} {st : Stop} (loop : s.turn = none) (call : s.stops i = some st)
      (joining : st.stage = .joining) : Step maxsize s (s.cancel i st true)
  | stopped {s : State} {i : Nat} {st : Stop} {timedOut : Bool} (loop : s.turn = none)
      (call : s.stops i = some st) (awaiting : st.stage = .awaiting timedOut)
      (ended : s.tasks st.worker = .ended) :
      Step maxsize s (s.setStop i { st with stage := .returned timedOut })
  | enqueue {s : State} (event : OperationAuditEvent) (outside : s.Outside) :
      Step maxsize s (s.enqueue maxsize event).2
  | subscribe {s : State} (outside : s.Outside) : Step maxsize s s.subscribe
  | resume {s : State} {w : Nat} (loop : s.turn = none) (born : w < s.started) :
      Step maxsize s (s.resume w)
  | get {s : State} {w q : Nat} {event : OperationAuditEvent} {rest : List OperationAuditEvent}
      (turn : s.turn = some w) (between : s.emission = none) (serving : s.tasks w = .serving q)
      (items : (s.queues q).items = event :: rest) : Step maxsize s (s.get q event rest)
  | deliver {s : State} {m : Emission} (emitting : s.emission = some m)
      (more : m.next < s.subscribers) : Step maxsize s (s.deliver m)
  | taskDone {s : State} {m : Emission} (emitting : s.emission = some m)
      (last : s.subscribers ≤ m.next) : Step maxsize s (s.taskDone m)
  | wait {s : State} {w q : Nat} (turn : s.turn = some w) (between : s.emission = none)
      (serving : s.tasks w = .serving q) (items : (s.queues q).items = []) :
      Step maxsize s { s with turn := none }

def Reachable (maxsize : Int) : State → Prop := ReflTransGen (Step maxsize) .init

section Updates

variable (s : State) (q w : Nat)

@[simp] theorem queues_setQueue_self (x : Queue) : (s.setQueue q x).queues q = x :=
  Function.update_self ..

@[simp] theorem tasks_setTask_self (x : Task) : (s.setTask w x).tasks w = x :=
  Function.update_self ..

variable {s q w}

theorem queues_setQueue_other {q' : Nat} (other : q' ≠ q) (x : Queue) :
    (s.setQueue q x).queues q' = s.queues q' := Function.update_of_ne other ..

theorem tasks_setTask_other {u : Nat} (other : u ≠ w) (x : Task) :
    (s.setTask w x).tasks u = s.tasks u := Function.update_of_ne other ..

/-- What does not change in one queue does not change in any. -/
theorem setQueue_same {α : Type} (f : Queue → α) {x : Queue} (same : f x = f (s.queues q))
    (q' : Nat) : f ((s.setQueue q x).queues q') = f (s.queues q') := by
  by_cases here : q' = q
  · subst here
    rw [queues_setQueue_self, same]
  · rw [queues_setQueue_other here]

variable (s)

theorem unfinished_get (q : Nat) (event : OperationAuditEvent) (rest : List OperationAuditEvent)
    (q' : Nat) : ((s.get q event rest).queues q').unfinished = (s.queues q').unfinished :=
  setQueue_same (s := s) Queue.unfinished (x := { s.queues q with items := rest }) rfl q'

/-- Only the count of unfinished events changes when an event is done. -/
theorem taskDone_same {α : Type} (f : Queue → α)
    (same : ∀ (x : Queue) (n : Nat), f { x with unfinished := n } = f x) (m : Emission) (q : Nat) :
    f ((s.taskDone m).queues q) = f (s.queues q) :=
  setQueue_same (s := s) f (same (s.queues m.queue) ((s.queues m.queue).unfinished - 1)) q

end Updates

/-! ### Which worker serves which queue -/

/-- Queue and worker are attached together. The worker of the attached queue has not been
cancelled, and it serves this queue or has not had its first turn. -/
structure Wired (s : State) : Prop where
  attached : s.worker = s.queue
  born : ∀ q, s.queue = some q → q < s.started
  alive : ∀ q, s.queue = some q →
    s.cancelled q = false ∧ (s.tasks q = .created ∨ s.tasks q = .serving q)
  unborn : ∀ q, s.started ≤ q → s.cancelled q = false ∧ s.tasks q = .created
  stops : ∀ i st, s.stops i = some st →
    st.worker = st.queue ∧ st.queue < s.started ∧ s.queue ≠ some st.queue
  turn : ∀ w, s.turn = some w → s.cancelled w = false ∧ ∃ q, s.tasks w = .serving q
  emission : s.turn = none → s.emission = none

theorem wired_init : Wired .init :=
  ⟨rfl, nofun, nofun, fun _ _ => ⟨rfl, rfl⟩, nofun, nofun, fun _ => rfl⟩

/-- Only the queues, the emission and the subscribers change, within a turn. -/
theorem Wired.inner {s s' : State} (wired : Wired s) (queue : s'.queue = s.queue)
    (worker : s'.worker = s.worker) (started : s'.started = s.started)
    (cancelled : s'.cancelled = s.cancelled) (tasks : s'.tasks = s.tasks)
    (stops : s'.stops = s.stops) (turn : s'.turn = s.turn)
    (emission : s.turn = none → s'.emission = s.emission) : Wired s' := by
  refine ⟨by rw [worker, queue, wired.attached], ?_, ?_, ?_, ?_, ?_, ?_⟩
  · rw [queue, started]
    exact wired.born
  · rw [queue, cancelled, tasks]
    exact wired.alive
  · rw [started, cancelled, tasks]
    exact wired.unborn
  · rw [stops, started, queue]
    exact wired.stops
  · rw [turn, cancelled, tasks]
    exact wired.turn
  · intro none
    rw [turn] at none
    rw [emission none, wired.emission none]

theorem enqueue_cases (maxsize : Int) (event : OperationAuditEvent) (s : State) :
    s.enqueue maxsize event = (false, s) ∨
      ∃ q, s.queue = some q ∧ (s.queues q).full maxsize = false ∧
        s.enqueue maxsize event = (true, s.setQueue q ((s.queues q).put event)) := by
  rw [State.enqueue]
  cases attached : s.queue with
  | none => exact .inl rfl
  | some q =>
      cases full : (s.queues q).full maxsize with
      | true => exact .inl (by simp [full])
      | false => exact .inr ⟨q, rfl, full, by simp [full]⟩

theorem wired_start {s : State} (wired : Wired s) : Wired s.start := by
  rw [State.start]
  split
  · exact wired
  · obtain ⟨uncancelled, created⟩ := wired.unborn s.started le_rfl
    refine ⟨rfl, ?_, ?_, fun q later => wired.unborn q (Nat.le_of_succ_le later), ?_, wired.turn,
      wired.emission⟩
    · rintro q ⟨⟩
      exact Nat.lt_succ_self _
    · rintro q ⟨⟩
      exact ⟨uncancelled, .inl created⟩
    · intro i st call
      obtain ⟨same, born, -⟩ := wired.stops i st call
      refine ⟨same, Nat.lt_succ_of_lt born, fun here => ?_⟩
      exact absurd (Option.some.inj here) (Nat.ne_of_gt born)

theorem stops_setStop {s : State} {i j : Nat} {x st : Stop}
    (call : (s.setStop i x).stops j = some st) : j = i ∧ st = x ∨ s.stops j = some st := by
  by_cases same : j = i
  · subst same
    simp only [State.setStop, Function.update_self, Option.some.injEq] at call
    exact .inl ⟨rfl, call.symm⟩
  · simp only [State.setStop, Function.update_of_ne same] at call
    exact .inr call

theorem wired_stop {s : State} (wired : Wired s) (i : Nat) : Wired (s.stop i) := by
  rw [State.stop]
  split
  · next q w queue worker =>
    have born := wired.born q queue
    have same : w = q := by
      have both := wired.attached
      rw [queue, worker] at both
      exact Option.some.inj both
    refine ⟨rfl, nofun, nofun, wired.unborn, fun j st call => ?_, wired.turn, wired.emission⟩
    rcases stops_setStop call with ⟨-, rfl⟩ | call
    · exact ⟨same, born, nofun⟩
    · obtain ⟨same, born, -⟩ := wired.stops j st call
      exact ⟨same, born, nofun⟩
  · refine ⟨rfl, nofun, nofun, wired.unborn, fun j st call => ?_, wired.turn, wired.emission⟩
    obtain ⟨same, born, -⟩ := wired.stops j st call
    exact ⟨same, born, nofun⟩

theorem wired_setStop {s : State} (wired : Wired s) {i : Nat} {st : Stop}
    (call : s.stops i = some st) (stage : Stage) :
    Wired (s.setStop i { st with stage := stage }) := by
  refine ⟨wired.attached, wired.born, wired.alive, wired.unborn, fun j x call' => ?_, wired.turn,
    wired.emission⟩
  rcases stops_setStop call' with ⟨-, rfl⟩ | call'
  · exact wired.stops i st call
  · exact wired.stops j x call'

theorem wired_cancel {s : State} (wired : Wired s) (loop : s.turn = none) {i : Nat} {st : Stop}
    (call : s.stops i = some st) (timedOut : Bool) : Wired (s.cancel i st timedOut) := by
  obtain ⟨same, born, detached⟩ := wired.stops i st call
  apply wired_setStop
  · refine ⟨wired.attached, wired.born, fun q queue => ?_, fun q later => ?_, wired.stops,
      fun w turn => ?_, wired.emission⟩
    · have other : q ≠ st.worker := by
        rintro rfl
        exact detached (same ▸ queue)
      simp only [State.setCancelled, Function.update_of_ne other]
      exact wired.alive q queue
    · have other : q ≠ st.worker := Nat.ne_of_gt (Nat.lt_of_lt_of_le (same ▸ born) later)
      simp only [State.setCancelled, Function.update_of_ne other]
      exact wired.unborn q later
    · rw [State.setCancelled, loop] at turn
      cases turn
  · exact call

theorem wired_ended {s : State} (wired : Wired s) (loop : s.turn = none) {w : Nat}
    (born : w < s.started) (other : s.queue ≠ some w) : Wired (s.setTask w .ended) := by
  refine ⟨wired.attached, wired.born, fun q queue => ?_, fun q later => ?_, wired.stops,
    fun u turn => ?_, wired.emission⟩
  · have apart : q ≠ w := fun same => other (same ▸ queue)
    rw [tasks_setTask_other apart]
    exact wired.alive q queue
  · have apart : q ≠ w := Nat.ne_of_gt (Nat.lt_of_lt_of_le born later)
    rw [tasks_setTask_other apart]
    exact wired.unborn q later
  · rw [State.setTask, loop] at turn
    cases turn

theorem wired_resume {s : State} (wired : Wired s) (loop : s.turn = none) {w : Nat}
    (born : w < s.started) : Wired (s.resume w) := by
  have between := wired.emission loop
  rw [State.resume]
  split
  · next cancelled =>
    refine wired_ended wired loop born fun queue => ?_
    rw [(wired.alive w queue).1] at cancelled
    cases cancelled
  · next uncancelled =>
    have uncancelled := Bool.eq_false_of_not_eq_true uncancelled
    split
    · next created =>
      split
      · next detached => exact wired_ended wired loop born (by rw [detached]; exact nofun)
      · next q queue =>
        refine ⟨wired.attached, wired.born, fun q' queue' => ?_, fun q' later => ?_, wired.stops,
          ?_, fun _ => between⟩
        · obtain rfl : q = q' := Option.some.inj (queue.symm.trans queue')
          refine ⟨(wired.alive q queue).1, ?_⟩
          by_cases same : q = w
          · subst same
            exact .inr (Function.update_self ..)
          · simp only [State.setTask, Function.update_of_ne same]
            exact (wired.alive q queue).2
        · have apart : q' ≠ w := Nat.ne_of_gt (Nat.lt_of_lt_of_le born later)
          simp only [State.setTask, Function.update_of_ne apart]
          exact wired.unborn q' later
        · rintro _ ⟨⟩
          exact ⟨uncancelled, q, Function.update_self ..⟩
    · next q serving =>
      refine ⟨wired.attached, wired.born, wired.alive, wired.unborn, wired.stops, ?_,
        fun _ => between⟩
      rintro _ ⟨⟩
      exact ⟨uncancelled, q, serving⟩
    · exact wired

theorem wired_step {maxsize : Int} {s s' : State} (wired : Wired s) (step : Step maxsize s s') :
    Wired s' := by
  cases step with
  | start loop => exact wired_start wired
  | stop i loop new => exact wired_stop wired i
  | joined loop call joining empty => exact wired_cancel wired loop call false
  | timeout loop call joining => exact wired_cancel wired loop call true
  | stopped loop call awaiting ended => exact wired_setStop wired call _
  | enqueue event outside =>
      rcases enqueue_cases maxsize event s with same | ⟨q, -, -, same⟩
      · rw [same]
        exact wired
      · rw [same]
        exact wired.inner rfl rfl rfl rfl rfl rfl rfl fun _ => rfl
  | subscribe outside => exact wired.inner rfl rfl rfl rfl rfl rfl rfl fun _ => rfl
  | resume loop born => exact wired_resume wired loop born
  | get turn between serving items =>
      refine wired.inner rfl rfl rfl rfl rfl rfl rfl fun none => ?_
      rw [turn] at none
      cases none
  | deliver emitting more =>
      refine wired.inner rfl rfl rfl rfl rfl rfl rfl fun none => ?_
      rw [wired.emission none] at emitting
      cases emitting
  | taskDone emitting last =>
      refine wired.inner rfl rfl rfl rfl rfl rfl rfl fun none => ?_
      rw [wired.emission none] at emitting
      cases emitting
  | wait turn between serving items =>
      exact ⟨wired.attached, wired.born, wired.alive, wired.unborn, wired.stops, nofun,
        fun _ => between⟩

/-! ### Every accepted event is somewhere -/

namespace State

/-- The events of a queue that have been recorded. -/
def recordedOf (s : State) (q : Nat) : List OperationAuditEvent :=
  (s.recorded.filter fun x => x.1 = q).map Prod.snd

/-- The event of a queue that is being emitted. -/
def emitting (s : State) (q : Nat) : List OperationAuditEvent :=
  match s.emission with
  | some m => if m.queue = q then [m.event] else []
  | none => []

end State

/-- What a queue has accepted has been recorded in the same order, but for the event that is
being emitted and those that still wait. -/
structure Conserved (maxsize : Int) (s : State) (q : Nat) : Prop where
  accepted : (s.queues q).accepted = s.recordedOf q ++ s.emitting q ++ (s.queues q).items
  unfinished : (s.queues q).unfinished = (s.emitting q).length + (s.queues q).items.length
  bounded : 0 < maxsize → (s.queues q).items.length ≤ maxsize

/-- The queue, its recorded events and its emission are untouched. -/
theorem Conserved.untouched {maxsize : Int} {s s' : State} {q : Nat}
    (conserved : Conserved maxsize s q) (queue : s'.queues q = s.queues q)
    (recorded : s'.recordedOf q = s.recordedOf q) (emitting : s'.emitting q = s.emitting q) :
    Conserved maxsize s' q := by
  constructor
  · rw [queue, recorded, emitting]
    exact conserved.accepted
  · rw [queue, emitting]
    exact conserved.unfinished
  · rw [queue]
    exact conserved.bounded

theorem conserved_init (maxsize : Int) (q : Nat) : Conserved maxsize .init q :=
  ⟨rfl, rfl, fun positive => by simpa [State.init, Queue.empty] using le_of_lt positive⟩

theorem conserved_enqueue {maxsize : Int} {s : State} {q : Nat} (conserved : Conserved maxsize s q)
    (event : OperationAuditEvent) : Conserved maxsize (s.enqueue maxsize event).2 q := by
  rcases enqueue_cases maxsize event s with same | ⟨q', -, room, same⟩
  · rw [same]
    exact conserved
  · rw [same]
    by_cases here : q = q'
    · subst here
      have put : (s.setQueue q ((s.queues q).put event)).queues q = (s.queues q).put event :=
        Function.update_self ..
      constructor
      · rw [put]
        change (s.queues q).accepted ++ [event] = _ ++ ((s.queues q).items ++ [event])
        rw [conserved.accepted, List.append_assoc]
        rfl
      · rw [put]
        change (s.queues q).unfinished + 1 = _ + ((s.queues q).items ++ [event]).length
        rw [conserved.unfinished, List.length_append, Nat.add_assoc]
        rfl
      · intro positive
        rw [put]
        change (((s.queues q).items ++ [event]).length : Int) ≤ maxsize
        simp only [Queue.full, decide_eq_false_iff_not, not_and, not_le] at room
        have below := room positive
        rw [List.length_append, List.length_singleton]
        omega
    · exact conserved.untouched (queues_setQueue_other here _) rfl rfl

theorem conserved_get {maxsize : Int} {s : State} {q q' : Nat} {event : OperationAuditEvent}
    {rest : List OperationAuditEvent} (conserved : Conserved maxsize s q)
    (between : s.emission = none) (items : (s.queues q').items = event :: rest) :
    Conserved maxsize (s.get q' event rest) q := by
  have nothing : s.emitting q = [] := by rw [State.emitting, between]
  by_cases here : q = q'
  · subst here
    have taken : (s.get q event rest).queues q = { s.queues q with items := rest } :=
      queues_setQueue_self ..
    have emitted : (s.get q event rest).emitting q = [event] := if_pos rfl
    have recorded : (s.get q event rest).recordedOf q = s.recordedOf q := rfl
    constructor
    · rw [taken, emitted, recorded]
      change (s.queues q).accepted = _
      rw [conserved.accepted, nothing, items]
      simp
    · rw [taken, emitted]
      change (s.queues q).unfinished = 1 + rest.length
      rw [conserved.unfinished, nothing, items, List.length_cons, List.length_nil]
      omega
    · intro positive
      have bounded := conserved.bounded positive
      rw [items, List.length_cons] at bounded
      rw [taken]
      change (rest.length : Int) ≤ maxsize
      omega
  · refine conserved.untouched (queues_setQueue_other here _) rfl ?_
    rw [nothing]
    exact if_neg (Ne.symm here)

theorem recordedOf_taskDone (s : State) (m : Emission) (q : Nat) :
    (s.taskDone m).recordedOf q =
      s.recordedOf q ++ if m.queue = q then [m.event] else [] := by
  change ((s.recorded ++ [(m.queue, m.event)]).filter fun x => x.1 = q).map Prod.snd = _
  rw [List.filter_append, List.map_append, State.recordedOf]
  by_cases here : m.queue = q
  · simp [here]
  · simp [here]

theorem conserved_taskDone {maxsize : Int} {s : State} {q : Nat} {m : Emission}
    (conserved : Conserved maxsize s q) (emission : s.emission = some m) :
    Conserved maxsize (s.taskDone m) q := by
  have cleared : (s.taskDone m).emitting q = [] := rfl
  have emitting : s.emitting q = if m.queue = q then [m.event] else [] := by
    rw [State.emitting, emission]
  by_cases here : m.queue = q
  · subst here
    have done : (s.taskDone m).queues m.queue =
        { s.queues m.queue with unfinished := (s.queues m.queue).unfinished - 1 } :=
      queues_setQueue_self ..
    rw [if_pos rfl] at emitting
    constructor
    · rw [done, recordedOf_taskDone, cleared, if_pos rfl, List.append_nil]
      change (s.queues m.queue).accepted = _
      rw [conserved.accepted, emitting]
    · rw [done, cleared]
      change (s.queues m.queue).unfinished - 1 = 0 + (s.queues m.queue).items.length
      rw [conserved.unfinished, emitting, List.length_singleton]
      omega
    · rw [done]
      exact conserved.bounded
  · refine conserved.untouched (queues_setQueue_other (Ne.symm here) _) ?_ ?_
    · rw [recordedOf_taskDone, if_neg here, List.append_nil]
    · rw [cleared, emitting, if_neg here]

theorem conserved_step {maxsize : Int} {s s' : State} {q : Nat}
    (conserved : Conserved maxsize s q) (step : Step maxsize s s') : Conserved maxsize s' q := by
  cases step with
  | start loop =>
      rw [State.start]
      split
      · exact conserved
      · exact conserved.untouched rfl rfl rfl
  | stop i loop new =>
      rw [State.stop]
      split
      · exact conserved.untouched rfl rfl rfl
      · exact conserved.untouched rfl rfl rfl
  | joined loop call joining empty => exact conserved.untouched rfl rfl rfl
  | timeout loop call joining => exact conserved.untouched rfl rfl rfl
  | stopped loop call awaiting ended => exact conserved.untouched rfl rfl rfl
  | enqueue event outside => exact conserved_enqueue conserved event
  | subscribe outside => exact conserved.untouched rfl rfl rfl
  | resume loop born =>
      rw [State.resume]
      split
      · exact conserved.untouched rfl rfl rfl
      · split
        · split
          · exact conserved.untouched rfl rfl rfl
          · exact conserved.untouched rfl rfl rfl
        · exact conserved.untouched rfl rfl rfl
        · exact conserved
  | get turn between serving items => exact conserved_get conserved between items
  | @deliver m emission more =>
      refine conserved.untouched rfl rfl ?_
      rw [State.emitting, State.emitting, emission]
      rfl
  | taskDone emission last => exact conserved_taskDone conserved emission
  | wait turn between serving items => exact conserved.untouched rfl rfl rfl

/-! ### What the subscribers are called with -/

/-- The event that is being emitted, if a subscriber has already been called with it. -/
def State.current (s : State) (i : Nat) : List OperationAuditEvent :=
  match s.emission with
  | some m => if i < m.next then [m.event] else []
  | none => []

/-- A subscriber has been called with the events recorded since it subscribed. -/
structure Delivered (s : State) : Prop where
  next : ∀ m, s.emission = some m → m.next ≤ s.subscribers
  since : ∀ i < s.subscribers, s.since i ≤ s.recorded.length
  received : ∀ i < s.subscribers,
    s.received i = (s.recorded.map Prod.snd).drop (s.since i) ++ s.current i

theorem delivered_init : Delivered .init := ⟨nofun, nofun, nofun⟩

theorem delivered_subscribe {s : State} (delivered : Delivered s) : Delivered s.subscribe := by
  have old : ∀ {i}, i < s.subscribers + 1 → i ≠ s.subscribers → i < s.subscribers := by omega
  refine ⟨fun m emission => Nat.le_succ_of_le (delivered.next m emission), ?_, ?_⟩
  · intro i known
    by_cases new : i = s.subscribers
    · subst new
      simp [State.subscribe]
    · simp only [State.subscribe, Function.update_of_ne new]
      exact delivered.since i (old known new)
  · intro i known
    have current : s.subscribe.current i = s.current i := rfl
    by_cases new : i = s.subscribers
    · subst new
      have uncalled : s.current s.subscribers = [] := by
        rw [State.current]
        split
        · next m emission => exact if_neg (Nat.not_lt.mpr (delivered.next m emission))
        · rfl
      rw [current, uncalled]
      simp [State.subscribe]
    · rw [current]
      simp only [State.subscribe, Function.update_of_ne new]
      exact delivered.received i (old known new)

theorem delivered_deliver {s : State} (delivered : Delivered s) {m : Emission}
    (emission : s.emission = some m) (more : m.next < s.subscribers) :
    Delivered (s.deliver m) := by
  refine ⟨?_, delivered.since, fun i known => ?_⟩
  · rintro _ ⟨⟩
    exact more
  · have before : s.current i = if i < m.next then [m.event] else [] := by
      rw [State.current, emission]
    have after : (s.deliver m).current i = if i < m.next + 1 then [m.event] else [] := rfl
    have received := delivered.received i known
    rw [before] at received
    rw [after]
    by_cases here : i = m.next
    · subst here
      rw [if_neg (Nat.lt_irrefl _), List.append_nil] at received
      simp only [State.deliver, Function.update_self, received]
      rw [if_pos (Nat.lt_succ_self _)]
    · simp only [State.deliver, Function.update_of_ne here]
      rw [received]
      by_cases called : i < m.next
      · rw [if_pos called, if_pos (Nat.lt_succ_of_lt called)]
      · rw [if_neg called, if_neg (by omega)]

theorem delivered_taskDone {s : State} (delivered : Delivered s) {m : Emission}
    (emission : s.emission = some m) (last : s.subscribers ≤ m.next) :
    Delivered (s.taskDone m) := by
  refine ⟨nofun, fun i known => ?_, fun i known => ?_⟩
  · change s.since i ≤ (s.recorded ++ [(m.queue, m.event)]).length
    rw [List.length_append]
    exact Nat.le_add_right_of_le (delivered.since i known)
  · have called : s.current i = [m.event] := by
      rw [State.current, emission]
      exact if_pos (Nat.lt_of_lt_of_le known last)
    change s.received i =
      ((s.recorded ++ [(m.queue, m.event)]).map Prod.snd).drop (s.since i) ++ []
    rw [delivered.received i known, called, List.map_append, List.append_nil,
      List.drop_append_of_le_length (by rw [List.length_map]; exact delivered.since i known)]
    rfl

theorem Delivered.untouched {s s' : State} (delivered : Delivered s)
    (emission : s'.emission = s.emission) (subscribers : s'.subscribers = s.subscribers)
    (received : s'.received = s.received) (since : s'.since = s.since)
    (recorded : s'.recorded = s.recorded) : Delivered s' := by
  constructor
  · rw [emission, subscribers]
    exact delivered.next
  · rw [since, subscribers, recorded]
    exact delivered.since
  · intro i known
    rw [received, since, recorded, State.current, emission]
    rw [subscribers] at known
    exact delivered.received i known

theorem delivered_step {maxsize : Int} {s s' : State} (delivered : Delivered s)
    (step : Step maxsize s s') : Delivered s' := by
  cases step with
  | start loop =>
      rw [State.start]
      split
      · exact delivered
      · exact delivered.untouched rfl rfl rfl rfl rfl
  | stop i loop new =>
      rw [State.stop]
      split
      · exact delivered.untouched rfl rfl rfl rfl rfl
      · exact delivered.untouched rfl rfl rfl rfl rfl
  | joined loop call joining empty => exact delivered.untouched rfl rfl rfl rfl rfl
  | timeout loop call joining => exact delivered.untouched rfl rfl rfl rfl rfl
  | stopped loop call awaiting ended => exact delivered.untouched rfl rfl rfl rfl rfl
  | enqueue event outside =>
      rcases enqueue_cases maxsize event s with same | ⟨q, -, -, same⟩
      · rw [same]
        exact delivered
      · rw [same]
        exact delivered.untouched rfl rfl rfl rfl rfl
  | subscribe outside => exact delivered_subscribe delivered
  | resume loop born =>
      rw [State.resume]
      split
      · exact delivered.untouched rfl rfl rfl rfl rfl
      · split
        · split
          · exact delivered.untouched rfl rfl rfl rfl rfl
          · exact delivered.untouched rfl rfl rfl rfl rfl
        · exact delivered.untouched rfl rfl rfl rfl rfl
        · exact delivered
  | get turn between serving items =>
      refine ⟨?_, delivered.since, fun i known => ?_⟩
      · rintro _ ⟨⟩
        exact Nat.zero_le _
      · have received := delivered.received i known
        rw [State.current, between] at received
        exact received
  | deliver emission more => exact delivered_deliver delivered emission more
  | taskDone emission last => exact delivered_taskDone delivered emission last
  | wait turn between serving items => exact delivered.untouched rfl rfl rfl rfl rfl

/-! ### What a stop has waited for -/

/-- The queue has been joined in time. -/
def Stage.joined : Stage → Bool
  | .joining => false
  | .awaiting timedOut => !timedOut
  | .returned timedOut => !timedOut

/-- The queues of such stops have no unfinished events. -/
def Drained (s : State) : Prop :=
  ∀ i st, s.stops i = some st → st.stage.joined = true → (s.queues st.queue).unfinished = 0

theorem drained_setStop {s : State} (drained : Drained s) {i : Nat} {x : Stop}
    (empty : x.stage.joined = true → (s.queues x.queue).unfinished = 0) :
    Drained (s.setStop i x) := by
  intro j st call joined
  rcases stops_setStop call with ⟨-, rfl⟩ | call
  · exact empty joined
  · exact drained j st call joined

theorem drained_step {maxsize : Int} {s s' : State} (wired : Wired s) (drained : Drained s)
    (step : Step maxsize s s') : Drained s' := by
  cases step with
  | start loop =>
      rw [State.start]
      split
      · exact drained
      · exact drained
  | stop i loop new =>
      rw [State.stop]
      split
      · exact drained_setStop drained nofun
      · exact drained
  | joined loop call joining empty => exact drained_setStop drained fun _ => empty
  | timeout loop call joining => exact drained_setStop drained nofun
  | @stopped i st timedOut loop call awaiting ended =>
      refine drained_setStop drained fun joined => drained i st call ?_
      rw [awaiting]
      exact joined
  | enqueue event outside =>
      rcases enqueue_cases maxsize event s with same | ⟨q, queue, -, same⟩
      · rw [same]
        exact drained
      · rw [same]
        intro i st call joined
        obtain ⟨-, -, detached⟩ := wired.stops i st call
        have other : st.queue ≠ q := fun here => detached (here ▸ queue)
        rw [queues_setQueue_other other]
        exact drained i st call joined
  | subscribe outside => exact drained
  | resume loop born =>
      rw [State.resume]
      split
      · exact drained
      · split
        · split
          · exact drained
          · exact drained
        · exact drained
        · exact drained
  | @get w q event rest turn between serving items =>
      intro i st call joined
      exact (unfinished_get s q event rest st.queue).trans (drained i st call joined)
  | deliver emission more => exact drained
  | @taskDone m emission last =>
      intro i st call joined
      have empty := drained i st call joined
      by_cases here : st.queue = m.queue
      · rw [here] at empty ⊢
        simp [State.taskDone, empty]
      · exact (congrArg Queue.unfinished (queues_setQueue_other here _)).trans empty
  | wait turn between serving items => exact drained

/-! ### Runs -/

section Runs

variable {maxsize : Int} {s : State}

theorem reachable_wired (run : Reachable maxsize s) : Wired s := by
  induction run with
  | refl => exact wired_init
  | tail _ step ih => exact wired_step ih step

theorem reachable_conserved (run : Reachable maxsize s) (q : Nat) : Conserved maxsize s q := by
  induction run with
  | refl => exact conserved_init maxsize q
  | tail _ step ih => exact conserved_step ih step

theorem reachable_delivered (run : Reachable maxsize s) : Delivered s := by
  induction run with
  | refl => exact delivered_init
  | tail _ step ih => exact delivered_step ih step

theorem reachable_drained (run : Reachable maxsize s) : Drained s := by
  induction run with
  | refl => exact nofun
  | tail before step ih => exact drained_step (reachable_wired before) ih step

end Runs

/-- In every run, whatever a queue has accepted has been recorded once and in the same order, but
for the event that is being emitted and the waiting ones; and a bounded queue is never longer than
its bound. -/
theorem events_conserved (maxsize : Int) (s : State) (run : Reachable maxsize s) (q : Nat) :
    (s.queues q).accepted = s.recordedOf q ++ s.emitting q ++ (s.queues q).items ∧
      (0 < maxsize → (s.queues q).items.length ≤ maxsize) :=
  ⟨(reachable_conserved run q).accepted, (reachable_conserved run q).bounded⟩

/-- In every run, a subscriber has been called with all events that have been recorded since it
subscribed, once each and in order, and with the current one if it is past its turn. -/
theorem subscribers_called (maxsize : Int) (s : State) (run : Reachable maxsize s) (i : Nat)
    (known : i < s.subscribers) :
    s.received i = (s.recorded.map Prod.snd).drop (s.since i) ++ s.current i :=
  (reachable_delivered run).received i known

/-- A stop whose queue was joined in time has lost nothing: from then on all that its queue has
ever accepted is recorded. -/
theorem stop_loses_nothing (maxsize : Int) (s : State) (run : Reachable maxsize s) (i : Nat)
    (st : Stop) (call : s.stops i = some st) (joined : st.stage.joined = true) :
    (s.queues st.queue).accepted = s.recordedOf st.queue := by
  have conserved := reachable_conserved run st.queue
  have empty := conserved.unfinished
  rw [reachable_drained run i st call joined] at empty
  have emitting : s.emitting st.queue = [] := List.length_eq_zero_iff.mp (by omega)
  have items : (s.queues st.queue).items = [] := List.length_eq_zero_iff.mp (by omega)
  rw [conserved.accepted, emitting, items, List.append_nil, List.append_nil]

/-! ### A run -/

def written : OperationAuditEvent where
  resourceType := "user"
  action := "post"
  method := "POST"
  path := "/api/v1/admin/user"
  statusCode := 200
  accountId := some "1"
  accountType := none
  requestId := none
  ip := none
  userAgent := none

/-- A queue for one event has been started, and is full. -/
def filled : State := (State.init.start.enqueue 1 written).2

theorem reachable_filled : Reachable 1 filled :=
  (ReflTransGen.single (.start rfl)).tail (.enqueue written (.inl rfl))

/-- There is a subscriber, and it has been called with the event. -/
def called : State := ((filled.subscribe.resume 0).get 0 written []).deliver ⟨0, written, 0⟩

theorem reachable_called : Reachable 1 called :=
  (((reachable_filled.tail (.subscribe (.inl rfl))).tail (.resume rfl (by decide))).tail
    (.get rfl rfl rfl rfl)).tail (.deliver rfl (by decide))

/-- The queue is stopped after the event has been recorded. -/
def joined : State :=
  ({ called.taskDone ⟨0, written, 1⟩ with turn := none }.stop 0).cancel 0 ⟨0, 0, .joining⟩ false

theorem reachable_joined : Reachable 1 joined :=
  (((reachable_called.tail (.taskDone rfl (by decide))).tail (.wait rfl rfl rfl rfl)).tail
    (.stop 0 rfl rfl)).tail (.joined rfl rfl rfl rfl)

theorem events_conserved_filled :
    (filled.queues 0).accepted =
        filled.recordedOf 0 ++ filled.emitting 0 ++ (filled.queues 0).items ∧
      ((0 : Int) < 1 → ((filled.queues 0).items.length : Int) ≤ 1) :=
  events_conserved 1 filled reachable_filled 0

theorem subscribers_called_once :
    called.received 0 = (called.recorded.map Prod.snd).drop (called.since 0) ++ called.current 0 :=
  subscribers_called 1 called reachable_called 0 (by decide)

theorem stop_loses_nothing_joined : (joined.queues 0).accepted = joined.recordedOf 0 :=
  stop_loses_nothing 1 joined reachable_joined 0 ⟨0, 0, .awaiting false⟩ rfl rfl

end AcojWorker.AuditQueue
