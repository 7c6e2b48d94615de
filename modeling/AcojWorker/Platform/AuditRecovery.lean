import AcojWorker.Platform.AuditQueue

/-!
# Which audit events can still be recorded

A turn of a worker ends, and then its queue is empty. Events that wait in a queue can therefore be
recorded as long as a worker will have a turn for this queue: while the queue is attached, or when
a worker that has begun to serve it has not been cancelled. If a stop takes the queue before the
worker has had its first turn, the events are lost.
-/

namespace AcojWorker.AuditQueue

open Relation

variable {maxsize : Int} {s s' : State}

/-! ### A turn ends -/

/-- Nothing is attached, cancelled, begun or accepted. -/
structure Within (s s' : State) : Prop where
  queue : s'.queue = s.queue
  started : s'.started = s.started
  cancelled : s'.cancelled = s.cancelled
  tasks : s'.tasks = s.tasks
  accepted : ∀ q, (s'.queues q).accepted = (s.queues q).accepted

theorem Within.refl (s : State) : Within s s := ⟨rfl, rfl, rfl, rfl, fun _ => rfl⟩

theorem Within.trans {s'' : State} (first : Within s s') (second : Within s' s'') :
    Within s s'' :=
  ⟨second.queue.trans first.queue, second.started.trans first.started,
    second.cancelled.trans first.cancelled, second.tasks.trans first.tasks,
    fun q => (second.accepted q).trans (first.accepted q)⟩

theorem emission_ends (maxsize : Int) {m : Emission} (emission : s.emission = some m) :
    ∃ s', ReflTransGen (Step maxsize) s s' ∧ Within s s' ∧ s'.turn = s.turn ∧
      s'.emission = none ∧ ∀ q, (s'.queues q).items = (s.queues q).items := by
  induction left : s.subscribers - m.next generalizing s m with
  | zero =>
      refine ⟨s.taskDone m, .single (.taskDone emission (by omega)),
        ⟨rfl, rfl, rfl, rfl, taskDone_same s Queue.accepted (fun _ _ => rfl) m⟩, rfl, rfl, ?_⟩
      exact taskDone_same s Queue.items (fun _ _ => rfl) m
  | succ n ih =>
      obtain ⟨s', steps, within, turn, ended, items⟩ :=
        ih (s := s.deliver m) (m := { m with next := m.next + 1 }) rfl
          (by change s.subscribers - (m.next + 1) = n; omega)
      have called : Within s (s.deliver m) := ⟨rfl, rfl, rfl, rfl, fun _ => rfl⟩
      exact ⟨s', .head (.deliver emission (by omega)) steps, called.trans within, turn, ended,
        items⟩

/-- A worker goes on until its queue is empty. -/
theorem turn_drains {w q : Nat} (turn : s.turn = some w) (between : s.emission = none)
    (serving : s.tasks w = .serving q) :
    ∃ s', ReflTransGen (Step maxsize) s s' ∧ Within s s' ∧ s'.turn = none ∧
      s'.emission = none ∧ (s'.queues q).items = [] := by
  induction items : (s.queues q).items generalizing s with
  | nil =>
      exact ⟨_, .single (.wait turn between serving items), ⟨rfl, rfl, rfl, rfl, fun _ => rfl⟩,
        rfl, between, items⟩
  | cons event rest ih =>
      have got : Step maxsize s (s.get q event rest) := .get turn between serving items
      have taken : ((s.get q event rest).queues q).items = rest :=
        congrArg Queue.items (queues_setQueue_self ..)
      obtain ⟨s₁, steps₁, within₁, turn₁, between₁, items₁⟩ :=
        emission_ends maxsize (s := s.get q event rest) (m := ⟨q, event, 0⟩) rfl
      obtain ⟨s₂, steps₂, within₂, ended, settled, empty⟩ := ih (turn₁.trans turn) between₁
        (by rw [within₁.tasks]; exact serving) (by rw [items₁, taken])
      have within : Within s (s.get q event rest) := ⟨rfl, rfl, rfl, rfl, setQueue_same Queue.accepted rfl⟩
      exact ⟨s₂, (ReflTransGen.head got steps₁).trans steps₂, (within.trans within₁).trans within₂,
        ended, settled, empty⟩

/-- The present turn ends. -/
theorem turn_ends (wired : Wired s) :
    ∃ s', ReflTransGen (Step maxsize) s s' ∧ Within s s' ∧ s'.turn = none ∧ s'.emission = none := by
  cases turn : s.turn with
  | none => exact ⟨s, .refl, .refl s, turn, wired.emission turn⟩
  | some w =>
      obtain ⟨-, q, serving⟩ := wired.turn w turn
      cases emission : s.emission with
      | none =>
          obtain ⟨s', steps, within, ended, settled, -⟩ := turn_drains turn emission serving
          exact ⟨s', steps, within, ended, settled⟩
      | some m =>
          obtain ⟨s₁, steps₁, within₁, turn₁, between, -⟩ := emission_ends maxsize emission
          obtain ⟨s₂, steps₂, within₂, ended, settled, -⟩ := turn_drains (turn₁.trans turn) between
            (by rw [within₁.tasks]; exact serving)
          exact ⟨s₂, steps₁.trans steps₂, within₁.trans within₂, ended, settled⟩

/-! ### A queue that has a worker -/

/-- A worker will have a turn for the queue. -/
def Recoverable (s : State) (q : Nat) : Prop :=
  s.queue = some q ∨ ∃ w, s.tasks w = .serving q ∧ s.cancelled w = false

theorem worker_drains (wired : Wired s) (loop : s.turn = none) (between : s.emission = none)
    {w q : Nat} (serving : s.tasks w = .serving q) (uncancelled : s.cancelled w = false) :
    ∃ s', ReflTransGen (Step maxsize) s s' ∧ Within s s' ∧ s'.emission = none ∧
      (s'.queues q).items = [] := by
  have born : w < s.started := by
    by_contra unborn
    have created := (wired.unborn w (Nat.not_lt.mp unborn)).2
    rw [serving] at created
    cases created
  have resumed : s.resume w = { s with turn := some w } := by
    simp [State.resume, uncancelled, serving]
  obtain ⟨s', steps, within, -, settled, empty⟩ := turn_drains
    (s := { s with turn := some w }) rfl between serving
  refine ⟨s', .head ?_ steps, ?_, settled, empty⟩
  · rw [← resumed]
    exact .resume loop born
  · exact ⟨within.queue, within.started, within.cancelled, within.tasks, within.accepted⟩

theorem recoverable_drains (wired : Wired s) {q : Nat} (recoverable : Recoverable s q) :
    ∃ s', ReflTransGen (Step maxsize) s s' ∧ s'.emission = none ∧ (s'.queues q).items = [] ∧
      (s'.queues q).accepted = (s.queues q).accepted := by
  obtain ⟨s₁, steps₁, within₁, loop, between⟩ := turn_ends wired
  have wired₁ : Wired s₁ := by
    clear within₁ loop between
    induction steps₁ with
    | refl => exact wired
    | tail _ step ih => exact wired_step ih step
  have served : ∀ w, s₁.tasks w = .serving q → s₁.cancelled w = false →
      ∃ s', ReflTransGen (Step maxsize) s s' ∧ s'.emission = none ∧ (s'.queues q).items = [] ∧
        (s'.queues q).accepted = (s.queues q).accepted := by
    intro w serving uncancelled
    obtain ⟨s₂, steps₂, within₂, settled, empty⟩ :=
      worker_drains wired₁ loop between serving uncancelled
    exact ⟨s₂, steps₁.trans steps₂, settled, empty, (within₁.trans within₂).accepted q⟩
  rcases recoverable with queue | ⟨w, serving, uncancelled⟩
  · have queue₁ : s₁.queue = some q := within₁.queue.trans queue
    obtain ⟨uncancelled, created | serving⟩ := wired₁.alive q queue₁
    · -- the first turn of the worker reads that it serves this queue
      have resumed : s₁.resume q = { s₁.setTask q (.serving q) with turn := some q } := by
        simp [State.resume, uncancelled, created, queue₁]
      obtain ⟨s₂, steps₂, within₂, -, settled, empty⟩ := turn_drains
        (s := { s₁.setTask q (.serving q) with turn := some q }) rfl between
        (tasks_setTask_self ..)
      have first : Step maxsize s₁ { s₁.setTask q (.serving q) with turn := some q } := by
        rw [← resumed]
        exact .resume loop (wired₁.born q queue₁)
      refine ⟨s₂, steps₁.trans (.head first steps₂), settled, empty, ?_⟩
      exact (within₂.accepted q).trans (within₁.accepted q)
    · exact served q serving uncancelled
  · exact served w (by rw [within₁.tasks]; exact serving)
      (by rw [within₁.cancelled]; exact uncancelled)

/-! ### A queue without a worker -/

/-- Queues that have not been created are empty. -/
def Unused (s : State) : Prop := ∀ q, s.started ≤ q → (s.queues q).items = []

theorem unused_step (wired : Wired s) (unused : Unused s) (step : Step maxsize s s') :
    Unused s' := by
  cases step with
  | start loop =>
      rw [State.start]
      split
      · exact unused
      · exact fun q later => unused q (Nat.le_of_succ_le later)
  | stop i loop new =>
      rw [State.stop]
      split
      · exact unused
      · exact unused
  | joined loop call joining empty => exact unused
  | timeout loop call joining => exact unused
  | stopped loop call awaiting ended => exact unused
  | enqueue event outside =>
      rcases enqueue_cases maxsize event s with same | ⟨q, queue, -, same⟩
      · rw [same]
        exact unused
      · rw [same]
        intro q' later
        have other : q' ≠ q := Nat.ne_of_gt (Nat.lt_of_lt_of_le (wired.born q queue) later)
        rw [queues_setQueue_other other]
        exact unused q' later
  | subscribe outside => exact unused
  | resume loop born =>
      rw [State.resume]
      split
      · exact unused
      · split
        · split
          · exact unused
          · exact unused
        · exact unused
        · exact unused
  | @get w q event rest turn between serving items =>
      intro q' later
      have nothing := unused q' later
      have other : q' ≠ q := by
        rintro rfl
        rw [items] at nothing
        cases nothing
      exact (congrArg Queue.items (queues_setQueue_other other _)).trans nothing
  | deliver emission more => exact unused
  | @taskDone m emission last =>
      intro q' later
      exact (taskDone_same s Queue.items (fun _ _ => rfl) m q').trans (unused q' later)
  | wait turn between serving items => exact unused

/-- A queue that nobody will serve again, with what it holds. -/
structure Abandoned (q : Nat) (items accepted : List OperationAuditEvent) (s : State) : Prop where
  born : q < s.started
  lost : ¬ Recoverable s q
  items : (s.queues q).items = items
  accepted : (s.queues q).accepted = accepted

variable {q : Nat} {items accepted : List OperationAuditEvent}

theorem Abandoned.untouched (abandoned : Abandoned q items accepted s)
    (started : s'.started = s.started) (queue : s'.queue = some q → s.queue = some q)
    (tasks : ∀ w, s'.tasks w = .serving q → s'.cancelled w = false →
      s.tasks w = .serving q ∧ s.cancelled w = false)
    (same : s'.queues q = s.queues q) : Abandoned q items accepted s' := by
  refine ⟨by rw [started]; exact abandoned.born, ?_, by rw [same]; exact abandoned.items,
    by rw [same]; exact abandoned.accepted⟩
  rintro (attached | ⟨w, serving, uncancelled⟩)
  · exact abandoned.lost (.inl (queue attached))
  · exact abandoned.lost (.inr ⟨w, tasks w serving uncancelled⟩)

theorem abandoned_resume (abandoned : Abandoned q items accepted s) (w : Nat) :
    Abandoned q items accepted (s.resume w) := by
  have ended : Abandoned q items accepted (s.setTask w .ended) := by
    refine abandoned.untouched rfl id (fun u serving uncancelled => ?_) rfl
    by_cases here : u = w
    · subst here
      rw [tasks_setTask_self] at serving
      cases serving
    · rw [tasks_setTask_other here] at serving
      exact ⟨serving, uncancelled⟩
  rw [State.resume]
  split
  · exact ended
  · split
    · split
      · exact ended
      · next q' queue =>
        refine abandoned.untouched rfl id (fun u serving uncancelled => ?_) rfl
        by_cases here : u = w
        · subst here
          have same : Task.serving q' = .serving q := (tasks_setTask_self ..).symm.trans serving
          exact absurd (.inl (Task.serving.inj same ▸ queue)) abandoned.lost
        · exact ⟨(tasks_setTask_other here _).symm.trans serving, uncancelled⟩
    · exact abandoned.untouched rfl id (fun _ serving uncancelled => ⟨serving, uncancelled⟩) rfl
    · exact abandoned

theorem abandoned_step (wired : Wired s) (abandoned : Abandoned q items accepted s)
    (step : Step maxsize s s') : Abandoned q items accepted s' := by
  have same : ∀ w, s.tasks w = .serving q → s.cancelled w = false →
      s.tasks w = .serving q ∧ s.cancelled w = false := fun _ serving uncancelled =>
    ⟨serving, uncancelled⟩
  have cancelled : ∀ i st timedOut, Abandoned q items accepted (s.cancel i st timedOut) := by
    intro i st timedOut
    refine abandoned.untouched rfl id (fun w serving uncancelled => ⟨serving, ?_⟩) rfl
    by_cases here : w = st.worker
    · subst here
      simp [State.cancel, State.setStop, State.setCancelled] at uncancelled
    · simpa only [State.cancel, State.setStop, State.setCancelled,
        Function.update_of_ne here] using uncancelled
  cases step with
  | start loop =>
      rw [State.start]
      split
      · exact abandoned
      · refine ⟨Nat.lt_succ_of_lt abandoned.born, ?_, abandoned.items, abandoned.accepted⟩
        rintro (attached | ⟨w, serving, uncancelled⟩)
        · exact absurd (Option.some.inj attached) (Nat.ne_of_gt abandoned.born)
        · exact abandoned.lost (.inr ⟨w, serving, uncancelled⟩)
  | stop i loop new =>
      rw [State.stop]
      split
      · exact abandoned.untouched rfl (by rintro ⟨⟩) same rfl
      · exact abandoned.untouched rfl (by rintro ⟨⟩) same rfl
  | joined loop call joining empty => exact cancelled _ _ false
  | timeout loop call joining => exact cancelled _ _ true
  | stopped loop call awaiting ended => exact abandoned.untouched rfl id same rfl
  | enqueue event outside =>
      rcases enqueue_cases maxsize event s with rejected | ⟨q', queue, -, put⟩
      · rw [rejected]
        exact abandoned
      · rw [put]
        have other : q ≠ q' := fun here => abandoned.lost (.inl (here ▸ queue))
        exact abandoned.untouched rfl id same (queues_setQueue_other other _)
  | subscribe outside => exact abandoned.untouched rfl id same rfl
  | @resume w loop born => exact abandoned_resume abandoned w
  | @get w q' event rest turn between serving items =>
      obtain ⟨uncancelled, -⟩ := wired.turn w turn
      have other : q ≠ q' := by
        rintro rfl
        exact abandoned.lost (.inr ⟨w, serving, uncancelled⟩)
      exact abandoned.untouched rfl id same (queues_setQueue_other other _)
  | deliver emission more => exact abandoned.untouched rfl id same rfl
  | @taskDone m emission last =>
      refine ⟨abandoned.born, abandoned.lost, ?_, ?_⟩
      · rw [← abandoned.items]
        exact taskDone_same s Queue.items (fun _ _ => rfl) m q
      · rw [← abandoned.accepted]
        exact taskDone_same s Queue.accepted (fun _ _ => rfl) m q
  | wait turn between serving items => exact abandoned.untouched rfl id same rfl

/-! ### Runs -/

theorem reachable_unused (run : Reachable maxsize s) : Unused s := by
  induction run with
  | refl => exact fun _ _ => rfl
  | tail before step ih => exact unused_step (reachable_wired before) ih step

/-- Events that wait in a queue can still be recorded, all of them, exactly if the queue is
attached or a worker that has not been cancelled has begun to serve it. -/
theorem still_recorded_iff (maxsize : Int) (s : State) (run : Reachable maxsize s) (q : Nat)
    (waiting : (s.queues q).items ≠ []) :
    (∃ s', ReflTransGen (Step maxsize) s s' ∧ s'.recordedOf q = (s.queues q).accepted) ↔
      s.queue = some q ∨ ∃ w, s.tasks w = .serving q ∧ s.cancelled w = false := by
  constructor
  · rintro ⟨s', steps, recorded⟩
    by_contra lost
    have born : q < s.started := by
      by_contra unborn
      exact waiting (reachable_unused run q (Nat.not_lt.mp unborn))
    have abandoned : Abandoned q (s.queues q).items (s.queues q).accepted s' := by
      clear recorded
      induction steps with
      | refl => exact ⟨born, lost, rfl, rfl⟩
      | tail before step ih => exact abandoned_step (reachable_wired (run.trans before)) ih step
    -- the queue has accepted more than has been recorded
    have accepted := (reachable_conserved (run.trans steps) q).accepted
    rw [abandoned.accepted, abandoned.items, ← recorded] at accepted
    have length := congrArg List.length accepted
    have positive := List.length_pos_iff.mpr waiting
    simp only [List.length_append] at length
    omega
  · intro recoverable
    obtain ⟨s', steps, settled, empty, accepted⟩ :=
      recoverable_drains (reachable_wired run) recoverable
    refine ⟨s', steps, ?_⟩
    have emitting : s'.emitting q = [] := by rw [State.emitting, settled]
    have conserved := (reachable_conserved (run.trans steps) q).accepted
    rw [emitting, empty, List.append_nil, List.append_nil] at conserved
    rw [← conserved, accepted]

theorem still_recorded_filled :
    (∃ s', ReflTransGen (Step 1) filled s' ∧ s'.recordedOf 0 = (filled.queues 0).accepted) ↔
      filled.queue = some 0 ∨ ∃ w, filled.tasks w = .serving 0 ∧ filled.cancelled w = false :=
  still_recorded_iff 1 filled reachable_filled 0 (by decide)

end AcojWorker.AuditQueue
