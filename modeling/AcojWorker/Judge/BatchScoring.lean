import AcojWorker.Judge.Scoring
import Mathlib.Tactic.Linarith

/-!
# What batch scoring computes

The four phases of `aggregateBatches` are described by three predicates on the raw
results alone. A batch earns its points when all its cases were accepted and no case of it
depends on a batch with a case that was not; a case that declares such a dependency itself
is reported as skipped. Dependencies are therefore looked up in the results before any
case is skipped, once: a batch that was only skipped still counts as passed.
-/

namespace AcojWorker

open Python Grouping

variable {β π : Type} [DecidableEq β]

/-- The test cases of a request, each with its raw result. -/
abbrev RawCases (β π : Type) : Type := List (BatchInfo β × CaseResult π)

namespace RawCases

variable (xs : RawCases β π)

def Occurs (b : β) : Prop := ∃ x ∈ xs, x.1.batchNo = some b

def AllAC (b : β) : Prop := ∀ x ∈ xs, x.1.batchNo = some b → x.2.result = .AC

/-- The test case depends on a batch of the list that did not pass. -/
def DependencyFails (tc : BatchInfo β) : Prop := ∃ d ∈ tc.deps, xs.Occurs d ∧ ¬ xs.AllAC d

def Earns (b : β) : Prop :=
  xs.AllAC b ∧ ∀ x ∈ xs, x.1.batchNo = some b → ¬ xs.DependencyFails x.1

instance (b : β) : Decidable (xs.Occurs b) :=
  inferInstanceAs (Decidable (∃ x ∈ xs, _))

instance (b : β) : Decidable (xs.AllAC b) :=
  inferInstanceAs (Decidable (∀ x ∈ xs, _))

instance (tc : BatchInfo β) : Decidable (xs.DependencyFails tc) :=
  inferInstanceAs (Decidable (∃ d ∈ tc.deps, _))

instance (b : β) : Decidable (xs.Earns b) :=
  inferInstanceAs (Decidable (_ ∧ ∀ x ∈ xs, _))

/-- The result reported for a test case. -/
def reported [Zero π] (x : BatchInfo β × CaseResult π) : CaseResult π :=
  match x.1.batchNo with
  | none => x.2
  | some b =>
      if xs.DependencyFails x.1 then x.2.skip
      else if xs.Earns b then x.2
      else { x.2 with points := 0 }

/-- Whether the points of a test case are counted. -/
def EarnsCase (x : BatchInfo β × CaseResult π) : Prop :=
  match x.1.batchNo with
  | none => x.2.result = .AC
  | some b => xs.Earns b

instance (x : BatchInfo β × CaseResult π) : Decidable (xs.EarnsCase x) := by
  unfold EarnsCase
  split <;> infer_instance

/-- Grouped by batch, batches in order of first appearance, input order inside a batch. -/
def layout : RawCases β π :=
  (distinct (xs.map fun x => x.1.batchNo)).flatMap fun bn =>
    xs.filter (fun x => x.1.batchNo = bn)

theorem layout_perm : xs.layout.Perm xs := by
  have perm := flatMap_filter_perm (xs.map fun x => (x.1.batchNo, x))
    (distinct (xs.map fun x => x.1.batchNo)) (distinct_nodup _) (by
      simp only [List.forall_mem_map, mem_distinct]
      exact fun x hx => List.mem_map_of_mem hx)
  simpa [layout, List.filter_map, List.map_flatMap, Function.comp_def] using perm.map Prod.snd

end RawCases

/-! ### Batch statuses -/

/-- The dictionary `batch_ac` has the batches that occur, each with whether all of its
cases are accepted. -/
theorem computeBatchAcStatus_apply (raw : List (CaseResult π)) (tcs : List (BatchInfo β))
    (b : β) :
    computeBatchAcStatus raw tcs b =
      if RawCases.Occurs (tcs.zip raw) b
      then some (decide (RawCases.AllAC (tcs.zip raw) b)) else none := by
  unfold computeBatchAcStatus
  generalize tcs.zip raw = xs
  induction xs using List.reverseRecOn with
  | nil => simp [RawCases.Occurs]
  | append_singleton xs x ih =>
      rw [List.foldl_append, List.foldl_cons, List.foldl_nil, recordCase]
      have occurs : RawCases.Occurs (xs ++ [x]) b ↔
          RawCases.Occurs xs b ∨ x.1.batchNo = some b := by
        simp [RawCases.Occurs, or_and_right, exists_or]
      have allAC : RawCases.AllAC (xs ++ [x]) b ↔
          RawCases.AllAC xs b ∧ (x.1.batchNo = some b → x.2.result = .AC) := by
        simp [RawCases.AllAC, or_imp, forall_and]
      cases hbn : x.1.batchNo with
      | none =>
          simp only [hbn, reduceCtorEq, or_false, false_imp_iff, and_true] at occurs allAC
          simp only [ih, occurs, allAC]
      | some bn =>
          by_cases hb : bn = b
          · subst hb
            simp only [hbn, or_true, true_imp_iff, iff_true] at occurs allAC
            simp only [Function.update_self, ih, if_pos occurs, allAC]
            by_cases seen : RawCases.Occurs xs bn
            · simp [seen]
            · have vacuous : RawCases.AllAC xs bn := fun y hy h => absurd ⟨y, hy, h⟩ seen
              simp [seen, vacuous]
          · simp only [hbn, Option.some.injEq, hb, or_false, false_imp_iff, and_true]
              at occurs allAC
            simp only [Function.update_of_ne (Ne.symm hb), ih, occurs, allAC]

theorem computeBatchAcStatus_eq_false {raw : List (CaseResult π)} {tcs : List (BatchInfo β)}
    {b : β} :
    computeBatchAcStatus raw tcs b = some false ↔
      RawCases.Occurs (tcs.zip raw) b ∧ ¬ RawCases.AllAC (tcs.zip raw) b := by
  rw [computeBatchAcStatus_apply]
  split <;> simp_all

/-! ### Marking -/

section Marking

variable [Zero π]

@[simp] theorem CaseResult.skip_skip (cr : CaseResult π) : cr.skip.skip = cr.skip := rfl

@[simp] theorem CaseResult.skip_result (cr : CaseResult π) : cr.skip.result = .SKIPPED := rfl

@[simp] theorem CaseResult.skip_points (cr : CaseResult π) : cr.skip.points = 0 := rfl

omit [DecidableEq β] in
/-- A case is skipped by any of its dependencies, and skipping it twice changes nothing. -/
theorem markDependencies_eq (batchAc : BatchStatus β) (tc : BatchInfo β) (cr : CaseResult π) :
    markDependencies batchAc tc cr =
      if tc.batchNo.isSome ∧ ∃ d ∈ tc.deps, batchAc d = some false then cr.skip else cr := by
  have loop : ∀ (deps : List β) (cr : CaseResult π),
      deps.foldl (fun cr dep => if batchAc dep = some false then cr.skip else cr) cr =
        if ∃ d ∈ deps, batchAc d = some false then cr.skip else cr := by
    intro deps
    induction deps with
    | nil => simp
    | cons d deps ih =>
        intro cr
        rw [List.foldl_cons, ih]
        by_cases hd : batchAc d = some false
        · simp [hd]
        · simp [hd]
  rw [markDependencies]
  cases tc.batchNo with
  | none => simp
  | some b => simp [loop]

/-- Phase 2 as a function of one test case. -/
def RawCases.marked (xs : RawCases β π) (x : BatchInfo β × CaseResult π) : CaseResult π :=
  if x.1.batchNo.isSome ∧ xs.DependencyFails x.1 then x.2.skip else x.2

theorem markDependencies_status (raw : List (CaseResult π)) (tcs : List (BatchInfo β))
    (tc : BatchInfo β) (cr : CaseResult π) :
    markDependencies (computeBatchAcStatus raw tcs) tc cr =
      RawCases.marked (tcs.zip raw) (tc, cr) := by
  simp only [markDependencies_eq, computeBatchAcStatus_eq_false]
  rfl

omit [DecidableEq β] in
theorem zip_applyBatchDependencies (batchAc : BatchStatus β) (raw : List (CaseResult π))
    (tcs : List (BatchInfo β)) :
    tcs.zip (applyBatchDependencies batchAc raw tcs) =
      (tcs.zip raw).map fun x => (x.1, markDependencies batchAc x.1 x.2) := by
  induction raw generalizing tcs with
  | nil => cases tcs <;> rfl
  | cons cr raw ih =>
      cases tcs with
      | nil => rfl
      | cons tc tcs => simp [applyBatchDependencies, ih]

/-- After marking, a batch is entirely accepted exactly when it earns its points. -/
theorem RawCases.allAC_marked (xs : RawCases β π) (b : β) :
    RawCases.AllAC (xs.map fun x => (x.1, xs.marked x)) b ↔ xs.Earns b := by
  have one : ∀ x : BatchInfo β × CaseResult π, x.1.batchNo = some b →
      ((xs.marked x).result = .AC ↔ x.2.result = .AC ∧ ¬ xs.DependencyFails x.1) := by
    intro x hx
    by_cases hd : xs.DependencyFails x.1 <;> simp [RawCases.marked, hx, hd]
  simp only [RawCases.AllAC, RawCases.Earns, List.forall_mem_map]
  constructor
  · intro h
    exact ⟨fun x hx hb => ((one x hb).mp (h x hx hb)).1,
      fun x hx hb => ((one x hb).mp (h x hx hb)).2⟩
  · rintro ⟨accepted, free⟩ x hx hb
    exact (one x hb).mpr ⟨accepted x hx hb, free x hx hb⟩

omit [DecidableEq β] [Zero π] in
theorem RawCases.occurs_map (xs : RawCases β π)
    (f : BatchInfo β × CaseResult π → CaseResult π) (b : β) :
    RawCases.Occurs (xs.map fun x => (x.1, f x)) b ↔ xs.Occurs b := by
  simp [RawCases.Occurs]

end Marking

/-! ### Points -/

section Points

variable [Zero π]

omit [DecidableEq β]

/-- The cases phase 4 returns for one batch. -/
def settle (batchAc : BatchStatus β) (bn : Option β) (batchCases : List (CaseResult π)) :
    List (CaseResult π) :=
  match bn with
  | none => batchCases
  | some b =>
      if (batchAc b).getD true then batchCases
      else batchCases.map fun c => { c with points := 0 }

/-- Whatever the points are worth, a successful phase 4 returns the settled batch. -/
theorem scoreBatch_cases {num : π → Except Exc ℚ} {batchAc : BatchStatus β} {bn : Option β}
    {batchCases : List (CaseResult π)} {acc acc' : List (CaseResult π) × ℚ}
    (h : scoreBatch num batchAc bn batchCases acc = .ok acc') :
    acc'.1 = acc.1 ++ settle batchAc bn batchCases := by
  cases bn with
  | none =>
      simp only [scoreBatch] at h
      simp only [settle]
      induction batchCases generalizing acc with
      | nil =>
          cases h
          simp
      | cons c cs ih =>
          rw [List.foldlM_cons] at h
          obtain ⟨next, step, rest⟩ := bind_eq_ok.mp h
          have grown : next.1 = acc.1 ++ [c] := by
            rw [scoreCase] at step
            split at step
            · obtain ⟨p, _, hp⟩ := bind_eq_ok.mp step
              cases hp
              rfl
            · cases step
              rfl
          simpa [grown] using ih rest
  | some b =>
      simp only [scoreBatch] at h
      simp only [settle]
      split at h
      · rename_i earned
        rw [if_pos earned]
        obtain ⟨p, _, hp⟩ := bind_eq_ok.mp h
        cases hp
        rfl
      · rename_i lost
        rw [if_neg lost]
        cases h
        rfl

/-- Phase 4 lays the settled batches out in order of first appearance. -/
theorem foldlM_scoreBatch_cases {num : π → Except Exc ℚ} {batchAc : BatchStatus β}
    {members : Option β → List (CaseResult π)} {order : List (Option β)}
    {acc acc' : List (CaseResult π) × ℚ}
    (h : order.foldlM (fun acc bn => scoreBatch num batchAc bn (members bn) acc) acc = .ok acc') :
    acc'.1 = acc.1 ++ order.flatMap fun bn => settle batchAc bn (members bn) := by
  induction order generalizing acc with
  | nil =>
      cases h
      simp
  | cons bn order ih =>
      rw [List.foldlM_cons] at h
      obtain ⟨next, step, rest⟩ := bind_eq_ok.mp h
      rw [ih rest, scoreBatch_cases step, List.flatMap_cons, List.append_assoc]

/-- What the accepted ones among some cases are worth. -/
def acPoints (val : π → ℚ) (cases : List (CaseResult π)) : ℚ :=
  ((cases.filter (fun c => c.result = .AC)).map fun c => val c.points).sum

omit [Zero π] in
theorem acPoints_append (val : π → ℚ) (as bs : List (CaseResult π)) :
    acPoints val (as ++ bs) = acPoints val as + acPoints val bs := by
  simp [acPoints]

omit [Zero π] in
theorem acPoints_of_all {val : π → ℚ} {cases : List (CaseResult π)}
    (accepted : ∀ c ∈ cases, c.result = .AC) :
    acPoints val cases = (cases.map fun c => val c.points).sum := by
  rw [acPoints, List.filter_eq_self.mpr (by simpa using accepted)]

theorem acPoints_zeroed {val : π → ℚ} (zero : val 0 = 0) (cases : List (CaseResult π)) :
    acPoints val (cases.map fun c => { c with points := 0 }) = 0 := by
  induction cases with
  | nil => rfl
  | cons c cs ih =>
      rw [List.map_cons, ← List.singleton_append, acPoints_append, ih]
      by_cases hc : c.result = .AC <;> simp [acPoints, hc, zero]

omit [Zero π] in
theorem sumPoints_eq {num : π → Except Exc ℚ} {val : π → ℚ} {cases : List (CaseResult π)}
    (hnum : ∀ c ∈ cases, num c.points = .ok (val c.points)) :
    sumPoints num cases = .ok (cases.map fun c => val c.points).sum := by
  have loop : ∀ (cases : List (CaseResult π)) (sum : ℚ),
      (∀ c ∈ cases, num c.points = .ok (val c.points)) →
      cases.foldlM (fun sum c => (sum + ·) <$> num c.points) sum =
        .ok (sum + (cases.map fun c => val c.points).sum) := by
    intro cases
    induction cases with
    | nil => simp [pure, Except.pure]
    | cons c cs ih =>
        intro sum hnum
        rw [List.foldlM_cons, hnum c (List.mem_cons_self ..)]
        exact (ih (sum + val c.points) (fun d hd => hnum d (List.mem_cons_of_mem _ hd))).trans
          (by simp [add_assoc])
  rw [sumPoints, loop cases 0 hnum, zero_add]

/-- With points that are numbers, phase 4 adds what the accepted settled cases are worth. -/
theorem scoreBatch_eq {num : π → Except Exc ℚ} {val : π → ℚ} (zero : val 0 = 0)
    {batchAc : BatchStatus β} {bn : Option β} {batchCases : List (CaseResult π)}
    (hnum : ∀ c ∈ batchCases, num c.points = .ok (val c.points))
    (sound : ∀ b, bn = some b → (batchAc b).getD true = true → ∀ c ∈ batchCases, c.result = .AC)
    (acc : List (CaseResult π) × ℚ) :
    scoreBatch num batchAc bn batchCases acc =
      .ok (acc.1 ++ settle batchAc bn batchCases,
        acc.2 + acPoints val (settle batchAc bn batchCases)) := by
  cases bn with
  | none =>
      simp only [scoreBatch, settle]
      clear sound
      induction batchCases generalizing acc with
      | nil => simp [acPoints, pure, Except.pure]
      | cons c cs ih =>
          have step : scoreCase num acc c = .ok (acc.1 ++ [c], acc.2 + acPoints val [c]) := by
            rw [scoreCase, hnum c (List.mem_cons_self ..)]
            by_cases hc : c.result = .AC
            · simp [hc, acPoints, bind, Except.bind, pure, Except.pure]
            · simp [hc, acPoints, pure, Except.pure]
          rw [List.foldlM_cons, step]
          refine (ih (fun d hd => hnum d (List.mem_cons_of_mem _ hd)) _).trans ?_
          rw [show acPoints val (c :: cs) = acPoints val [c] + acPoints val cs from
            acPoints_append val [c] cs]
          simp [add_assoc]
  | some b =>
      simp only [scoreBatch, settle]
      by_cases earned : (batchAc b).getD true = true
      · rw [if_pos earned, if_pos earned, sumPoints_eq hnum,
          acPoints_of_all (sound b rfl earned)]
        rfl
      · rw [if_neg earned, if_neg earned, acPoints_zeroed zero, add_zero]
        rfl

theorem foldlM_scoreBatch_eq {num : π → Except Exc ℚ} {val : π → ℚ} (zero : val 0 = 0)
    {batchAc : BatchStatus β} {members : Option β → List (CaseResult π)}
    {order : List (Option β)}
    (hnum : ∀ bn ∈ order, ∀ c ∈ members bn, num c.points = .ok (val c.points))
    (sound : ∀ b, some b ∈ order → (batchAc b).getD true = true →
      ∀ c ∈ members (some b), c.result = .AC)
    (acc : List (CaseResult π) × ℚ) :
    order.foldlM (fun acc bn => scoreBatch num batchAc bn (members bn) acc) acc =
      .ok (acc.1 ++ order.flatMap (fun bn => settle batchAc bn (members bn)),
        acc.2 + acPoints val (order.flatMap fun bn => settle batchAc bn (members bn))) := by
  induction order generalizing acc with
  | nil => simp [acPoints, pure, Except.pure]
  | cons bn order ih =>
      have sound' : ∀ b, bn = some b → (batchAc b).getD true = true →
          ∀ c ∈ members bn, c.result = .AC := by
        rintro b rfl
        exact sound b (List.mem_cons_self ..)
      rw [List.foldlM_cons, scoreBatch_eq zero (hnum bn (List.mem_cons_self ..)) sound' acc]
      refine (ih (fun k hk => hnum k (List.mem_cons_of_mem _ hk))
        (fun b hb => sound b (List.mem_cons_of_mem _ hb)) _).trans ?_
      rw [List.flatMap_cons, acPoints_append]
      simp [add_assoc]

end Points

/-! ### The four phases together -/

section Phases

variable [Zero π] {raw : List (CaseResult π)} {tcs : List (BatchInfo β)}

/-- The marked results paired with their test cases, as the last two phases see them. -/
theorem zip_marked :
    tcs.zip (applyBatchDependencies (computeBatchAcStatus raw tcs) raw tcs) =
      (tcs.zip raw).map fun x => (x.1, RawCases.marked (tcs.zip raw) x) := by
  rw [zip_applyBatchDependencies]
  exact List.map_congr_left (fun x _ => by rw [← markDependencies_status])

/-- The last phase looks a batch up and finds whether it earns its points. -/
theorem status_after_marking {b : β} (occurs : RawCases.Occurs (tcs.zip raw) b) :
    computeBatchAcStatus (applyBatchDependencies (computeBatchAcStatus raw tcs) raw tcs) tcs b =
      some (decide (RawCases.Earns (tcs.zip raw) b)) := by
  rw [computeBatchAcStatus_apply, zip_marked,
    if_pos ((RawCases.occurs_map _ (RawCases.marked _) b).mpr occurs)]
  simp only [RawCases.allAC_marked]

/-- Settling a marked batch reports each of its test cases. -/
theorem settle_marked (xs : RawCases β π) (batchAc : BatchStatus β) (bn : Option β)
    (status : ∀ b, bn = some b → batchAc b = some (decide (xs.Earns b))) :
    settle batchAc bn ((xs.filter (fun x => x.1.batchNo = bn)).map xs.marked) =
      (xs.filter (fun x => x.1.batchNo = bn)).map xs.reported := by
  cases bn with
  | none =>
      simp only [settle]
      apply List.map_congr_left
      intro x hx
      have : x.1.batchNo = none := by simpa using (List.mem_filter.mp hx).2
      simp [RawCases.marked, RawCases.reported, this]
  | some b =>
      simp only [settle, status b rfl, Option.getD_some, decide_eq_true_eq]
      by_cases earns : xs.Earns b
      · rw [if_pos earns]
        apply List.map_congr_left
        intro x hx
        have hb : x.1.batchNo = some b := by simpa using (List.mem_filter.mp hx).2
        have free := earns.2 x (List.mem_filter.mp hx).1 hb
        simp [RawCases.marked, RawCases.reported, hb, free, earns]
      · rw [if_neg earns, List.map_map]
        apply List.map_congr_left
        intro x hx
        have hb : x.1.batchNo = some b := by simpa using (List.mem_filter.mp hx).2
        by_cases fails : xs.DependencyFails x.1
        · simp [RawCases.marked, RawCases.reported, hb, fails, CaseResult.skip]
        · simp [RawCases.marked, RawCases.reported, hb, fails, earns]

/-- The groups of the last phase. -/
theorem group_marked (xs : RawCases β π) (bn : Option β) :
    (group ((xs.map fun x => (x.1, xs.marked x)).map fun x => (x.1.batchNo, x.2))).members bn =
      (xs.filter (fun x => x.1.batchNo = bn)).map xs.marked := by
  rw [group_members, List.map_map, List.filter_map, List.map_map]
  rfl

theorem order_marked (xs : RawCases β π) :
    (group ((xs.map fun x => (x.1, xs.marked x)).map fun x => (x.1.batchNo, x.2))).order =
      distinct (xs.map fun x => x.1.batchNo) := by
  rw [group_order, List.map_map, List.map_map]
  rfl

omit [Zero π] in
theorem occurs_of_mem_order {xs : RawCases β π} {b : β}
    (h : some b ∈ distinct (xs.map fun x => x.1.batchNo)) : xs.Occurs b := by
  obtain ⟨x, hx, hb⟩ := List.mem_map.mp (mem_distinct.mp h)
  exact ⟨x, hx, hb⟩

theorem settled_eq_layout (xs : RawCases β π) (batchAc : BatchStatus β)
    (status : ∀ b, xs.Occurs b → batchAc b = some (decide (xs.Earns b))) :
    ((distinct (xs.map fun x => x.1.batchNo)).flatMap fun bn =>
      settle batchAc bn ((xs.filter (fun x => x.1.batchNo = bn)).map xs.marked)) =
      xs.layout.map xs.reported := by
  rw [RawCases.layout, List.map_flatMap]
  apply List.flatMap_congr
  intro bn hbn
  apply settle_marked
  rintro b rfl
  exact status b (occurs_of_mem_order hbn)

/-- Whatever points are, scoring that succeeds reports every test case where the layout
puts it. -/
theorem aggregateBatches_cases {num : π → Except Exc ℚ} {cases : List (CaseResult π)} {total : ℚ}
    (h : aggregateBatches num raw tcs = .ok (cases, total)) :
    cases = (RawCases.layout (tcs.zip raw)).map (RawCases.reported (tcs.zip raw)) := by
  have laidOut := foldlM_scoreBatch_cases h
  simp only [List.nil_append, zip_marked, group_marked, order_marked] at laidOut
  rw [laidOut]
  exact settled_eq_layout _ _ (fun b occurs => status_after_marking occurs)

theorem marked_of_earns {xs : RawCases β π} {b : β} (earns : xs.Earns b)
    {x : BatchInfo β × CaseResult π} (hx : x ∈ xs) (hb : x.1.batchNo = some b) :
    xs.marked x = x.2 := by
  have free := earns.2 x hx hb
  simp [RawCases.marked, free]

/-- The cases of a batch that passed are accepted. -/
theorem accepted_of_passed {b : β}
    (hb : some b ∈ distinct ((tcs.zip raw).map fun x => x.1.batchNo))
    (passed : (computeBatchAcStatus (applyBatchDependencies (computeBatchAcStatus raw tcs) raw tcs)
      tcs b).getD true = true) :
    ∀ c ∈ ((tcs.zip raw).filter fun x => x.1.batchNo = some b).map (RawCases.marked (tcs.zip raw)),
      c.result = .AC := by
  intro c hc
  rw [status_after_marking (occurs_of_mem_order hb), Option.getD_some, decide_eq_true_eq] at passed
  obtain ⟨x, hx, rfl⟩ := List.mem_map.mp hc
  obtain ⟨mem, hbn⟩ := List.mem_filter.mp hx
  have hbn : x.1.batchNo = some b := by simpa using hbn
  rw [marked_of_earns passed mem hbn]
  exact passed.1 x mem hbn

/-- Scoring succeeds when the points are numbers, and the total is what the accepted
reported cases are worth. -/
theorem aggregateBatches_eq {num : π → Except Exc ℚ} (val : π → ℚ) (zero : num 0 = .ok 0)
    (hnum : ∀ x ∈ tcs.zip raw, num x.2.points = .ok (val x.2.points)) (hval : val 0 = 0) :
    aggregateBatches num raw tcs =
      .ok ((RawCases.layout (tcs.zip raw)).map (RawCases.reported (tcs.zip raw)),
        acPoints val
          ((RawCases.layout (tcs.zip raw)).map (RawCases.reported (tcs.zip raw)))) := by
  simp only [aggregateBatches, zip_marked, group_marked, order_marked]
  rw [foldlM_scoreBatch_eq hval]
  · simp only [List.nil_append, zero_add,
      settled_eq_layout _ _ (fun b occurs => status_after_marking occurs)]
  · intro bn _ c hc
    obtain ⟨x, hx, rfl⟩ := List.mem_map.mp hc
    rw [RawCases.marked]
    split
    · simp only [CaseResult.skip_points, zero, hval]
    · exact hnum x (List.mem_filter.mp hx).1
  · exact fun b hb => accepted_of_passed hb

/-- What a test case adds to the total: its points if it earns them. -/
theorem acPoints_reported {val : π → ℚ} (hval : val 0 = 0) {xs : RawCases β π}
    {x : BatchInfo β × CaseResult π} (hx : x ∈ xs) :
    acPoints val [xs.reported x] = if xs.EarnsCase x then val x.2.points else 0 := by
  cases hb : x.1.batchNo with
  | none =>
      by_cases hr : x.2.result = .AC <;>
        simp [RawCases.reported, RawCases.EarnsCase, acPoints, hb, hr]
  | some b =>
      by_cases earns : xs.Earns b
      · simp [RawCases.reported, RawCases.EarnsCase, acPoints, hb, earns, earns.2 x hx hb,
          earns.1 x hx hb]
      · by_cases fails : xs.DependencyFails x.1
        · simp [RawCases.reported, RawCases.EarnsCase, acPoints, hb, earns, fails]
        · by_cases hr : x.2.result = .AC <;>
            simp [RawCases.reported, RawCases.EarnsCase, acPoints, hb, earns, fails, hr, hval]

omit [DecidableEq β] [Zero π] in
theorem acPoints_map (val : π → ℚ) (xs : RawCases β π)
    (f : BatchInfo β × CaseResult π → CaseResult π) :
    acPoints val (xs.map f) = (xs.map fun x => acPoints val [f x]).sum := by
  induction xs with
  | nil => rfl
  | cons x xs ih =>
      rw [List.map_cons, List.map_cons, List.sum_cons, ← ih, ← acPoints_append]
      rfl

/-- The total counts every test case that earns its points, once. -/
theorem acPoints_layout {val : π → ℚ} (hval : val 0 = 0) (xs : RawCases β π) :
    acPoints val (xs.layout.map xs.reported) =
      (xs.map fun x => if xs.EarnsCase x then val x.2.points else 0).sum := by
  rw [acPoints_map, (xs.layout_perm.map _).sum_eq]
  exact congrArg List.sum (List.map_congr_left (fun x hx => acPoints_reported hval hx))

end Phases

/-! ### The scoring rules -/

/-- Batch scoring over exact points. The returned cases are the input cases, each once,
batch by batch; outside the batches a case stands for itself, inside a batch it earns its
points exactly when the whole batch passed and no case of the batch depends on a batch
that did not; the total is the sum over the returned accepted cases. -/
theorem aggregateBatches_spec (raw : List (CaseResult ℚ)) (tcs : List (BatchInfo β))
    (paired : tcs.length = raw.length) :
    let xs : RawCases β ℚ := tcs.zip raw
    ∃ cases total,
      aggregateBatches .ok raw tcs = .ok (cases, total) ∧
      cases = xs.layout.map xs.reported ∧
      (xs.layout.map Prod.snd).Perm raw ∧
      (∀ x ∈ xs, x.1.batchNo = none →
        xs.reported x = x.2 ∧ (xs.EarnsCase x ↔ x.2.result = .AC)) ∧
      (∀ x ∈ xs, ∀ b, x.1.batchNo = some b →
        (xs.EarnsCase x ↔
          (∀ y ∈ xs, y.1.batchNo = some b → y.2.result = .AC) ∧
          ∀ y ∈ xs, y.1.batchNo = some b → ∀ d ∈ y.1.deps, xs.Occurs d →
            ∀ z ∈ xs, z.1.batchNo = some d → z.2.result = .AC) ∧
        (xs.EarnsCase x → xs.reported x = x.2) ∧
        (¬ xs.EarnsCase x → (xs.reported x).points = 0) ∧
        ((∃ d ∈ x.1.deps, xs.Occurs d ∧ ¬ xs.AllAC d) →
          (xs.reported x).result = .SKIPPED ∧ (xs.reported x).points = 0)) ∧
      total = ((cases.filter (fun c => c.result = .AC)).map fun c => c.points).sum ∧
      total = (xs.map fun x => if xs.EarnsCase x then x.2.points else 0).sum := by
  intro xs
  refine ⟨_, _, aggregateBatches_eq id rfl (fun _ _ => rfl) rfl, rfl, ?_, ?_, ?_, rfl,
    acPoints_layout rfl xs⟩
  · have perm := xs.layout_perm.map Prod.snd
    rwa [List.map_snd_zip (le_of_eq paired.symm)] at perm
  · intro x _ hb
    simp [RawCases.reported, RawCases.EarnsCase, hb]
  · intro x hx b hb
    have earns : xs.EarnsCase x ↔ xs.Earns b := by simp [RawCases.EarnsCase, hb]
    refine ⟨?_, ?_, ?_, ?_⟩
    · rw [earns]
      simp only [RawCases.Earns, RawCases.AllAC, RawCases.DependencyFails, not_exists, not_and,
        not_not]
    · intro h
      have free := (earns.mp h).2 x hx hb
      simp [RawCases.reported, hb, free, earns.mp h]
    · intro h
      have lost := mt earns.mpr h
      by_cases fails : xs.DependencyFails x.1 <;> simp [RawCases.reported, hb, fails, lost]
    · intro h
      have fails : xs.DependencyFails x.1 := h
      simp [RawCases.reported, hb, fails]

/-- Three batches, each depending on the one before it. -/
def chainTests : List (BatchInfo ℕ) :=
  [⟨some 1, [], []⟩, ⟨some 2, [1], []⟩, ⟨some 3, [2], []⟩]

/-- Only the first batch fails. -/
def chainResults : List (CaseResult ℚ) :=
  [⟨.int 1, .WA, 0, 0, 20, "", ""⟩, ⟨.int 2, .AC, 0, 0, 20, "", ""⟩,
    ⟨.int 3, .AC, 0, 0, 20, "", ""⟩]

theorem aggregateBatches_spec_chain :
    ∃ cases, aggregateBatches .ok chainResults chainTests = .ok (cases, 20) := by
  obtain ⟨cases, total, run, _, _, _, _, _, earned⟩ :=
    aggregateBatches_spec chainResults chainTests rfl
  have worth : total = 20 := earned.trans (by decide +kernel)
  exact ⟨cases, worth ▸ run⟩

end AcojWorker
