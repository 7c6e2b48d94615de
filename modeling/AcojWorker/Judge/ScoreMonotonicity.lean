import AcojWorker.Judge.EarlyStop
import Mathlib.Algebra.Order.BigOperators.Group.List

/-!
# More accepted cases, no fewer points

Turning failed cases into accepted ones never lowers a score. Skipped cases, batches that
earn their points together and dependencies between them all depend on the results alone, and
each of them only asks for accepted ones; where the first failure ends a submission, it moves
to a later case.
-/

namespace AcojWorker

open Python Effect

section Batches

variable {β π : Type} [DecidableEq β]

/-- Accepted where the first result is, and then worth the same. -/
def CaseResult.Improves (c c' : CaseResult π) : Prop :=
  c.result = .AC → c'.result = .AC ∧ c'.points = c.points

namespace RawCases

/-- The same test cases with improved results. -/
def Improved (xs ys : RawCases β π) : Prop :=
  List.Forall₂ (fun x y => y.1 = x.1 ∧ x.2.Improves y.2) xs ys

variable {xs ys : RawCases β π} {b : β}

omit [DecidableEq β] in
theorem Improved.occurs (improved : Improved xs ys) : Occurs ys b ↔ Occurs xs b := by
  constructor
  · rintro ⟨y, hy, hb⟩
    obtain ⟨x, hx, same, _⟩ := forall₂_mem improved y hy
    exact ⟨x, hx, same ▸ hb⟩
  · rintro ⟨x, hx, hb⟩
    obtain ⟨y, hy, same, _⟩ := forall₂_mem improved.flip x hx
    exact ⟨y, hy, by rw [same, hb]⟩

omit [DecidableEq β] in
theorem Improved.allAC (improved : Improved xs ys) (all : AllAC xs b) : AllAC ys b := by
  intro y hy hb
  obtain ⟨x, hx, same, improves⟩ := forall₂_mem improved y hy
  exact (improves (all x hx (same ▸ hb))).1

omit [DecidableEq β] in
theorem Improved.dependencyFails (improved : Improved xs ys) {tc : BatchInfo β}
    (fails : DependencyFails ys tc) : DependencyFails xs tc := by
  obtain ⟨d, hd, occurs, failed⟩ := fails
  exact ⟨d, hd, improved.occurs.mp occurs, mt improved.allAC failed⟩

omit [DecidableEq β] in
theorem Improved.earns (improved : Improved xs ys) (earns : Earns xs b) : Earns ys b := by
  refine ⟨improved.allAC earns.1, ?_⟩
  intro y hy hb fails
  obtain ⟨x, hx, same, _⟩ := forall₂_mem improved y hy
  rw [same] at hb fails
  exact earns.2 x hx hb (improved.dependencyFails fails)

/-- What a test case adds to the total does not shrink. -/
theorem Improved.worth (improved : Improved xs ys) {val : π → ℚ}
    {x y : BatchInfo β × CaseResult π} (hx : x ∈ xs) (same : y.1 = x.1)
    (improves : x.2.Improves y.2) (nonneg : 0 ≤ val y.2.points) :
    (if EarnsCase xs x then val x.2.points else 0) ≤
      if EarnsCase ys y then val y.2.points else 0 := by
  by_cases earned : EarnsCase xs x
  · have accepted : x.2.result = .AC := by
      cases hb : x.1.batchNo with
      | none => simpa [EarnsCase, hb] using earned
      | some b =>
          have earns : Earns xs b := by simpa [EarnsCase, hb] using earned
          exact earns.1 x hx hb
    obtain ⟨accepted', points⟩ := improves accepted
    have still : EarnsCase ys y := by
      cases hb : x.1.batchNo with
      | none => simpa [EarnsCase, same, hb] using accepted'
      | some b =>
          have earns : Earns xs b := by simpa [EarnsCase, hb] using earned
          simpa [EarnsCase, same, hb] using improved.earns earns
    rw [if_pos earned, if_pos still, points]
  · rw [if_neg earned]
    split
    · exact nonneg
    · exact le_refl 0

theorem Improved.total (improved : Improved xs ys) {val : π → ℚ}
    (nonneg : ∀ y ∈ ys, 0 ≤ val y.2.points) :
    (xs.map fun x => if EarnsCase xs x then val x.2.points else 0).sum ≤
      (ys.map fun y => if EarnsCase ys y then val y.2.points else 0).sum := by
  apply List.Forall₂.sum_le_sum
  rw [List.forall₂_map_left_iff, List.forall₂_map_right_iff]
  have members : List.Forall₂ (fun x y => x ∈ xs ∧ y.1 = x.1 ∧ x.2.Improves y.2) xs ys :=
    (List.forall₂_and_left _ _).mpr ⟨fun _ hx => hx, improved⟩
  have worths : List.Forall₂ (fun y x => 0 ≤ val y.2.points ∧ x ∈ xs ∧ y.1 = x.1 ∧
      x.2.Improves y.2) ys xs :=
    (List.forall₂_and_left _ _).mpr ⟨nonneg, members.flip⟩
  exact worths.flip.imp fun x y ⟨worth, hx, same, improves⟩ => improved.worth hx same improves worth

end RawCases

/-- Case by case as well. -/
theorem acPoints_mono {cases cases' : List (CaseResult π)} {val : π → ℚ}
    (improved : List.Forall₂ CaseResult.Improves cases cases')
    (nonneg : ∀ c ∈ cases', 0 ≤ val c.points) : acPoints val cases ≤ acPoints val cases' := by
  induction improved with
  | nil => exact le_refl 0
  | cons improves _ ih =>
      rename_i c c' cs cs' rest
      have tail := ih fun d hd => nonneg d (List.mem_cons_of_mem _ hd)
      have head : acPoints val [c] ≤ acPoints val [c'] := by
        by_cases accepted : c.result = .AC
        · obtain ⟨accepted', points⟩ := improves accepted
          simp [acPoints, accepted, accepted', points]
        · have worth := nonneg c' (List.mem_cons_self ..)
          by_cases accepted' : c'.result = .AC <;> simp [acPoints, accepted, accepted', worth]
      calc acPoints val (c :: cs) = acPoints val [c] + acPoints val cs := acPoints_append val [c] cs
        _ ≤ acPoints val [c'] + acPoints val cs' := add_le_add head tail
        _ = acPoints val (c' :: cs') := (acPoints_append val [c'] cs').symm

end Batches

namespace StandardMode

/-! ### Scores -/

section Scores

variable {tests : List Value}

/-- What points are worth; values that are not numbers are worth nothing. -/
def pointValue (points : Value) : ℚ := points.number.toOption.getD 0

/-- The points of a result are a number that is not negative. -/
def HasPoints (c : CaseResult Value) : Prop :=
  c.points.number = .ok (pointValue c.points) ∧ 0 ≤ pointValue c.points

theorem pointValue_eq {points : Value} {q : ℚ} (h : points.number = .ok q) :
    pointValue points = q := by
  rw [pointValue, h]
  rfl

theorem zip_improved {infos : List (BatchInfo Key)} {raw raw' : List (CaseResult Value)}
    (improved : List.Forall₂ CaseResult.Improves raw raw') :
    RawCases.Improved (infos.zip raw) (infos.zip raw') := by
  induction improved generalizing infos with
  | nil => cases infos <;> exact .nil
  | cons improves _ ih =>
      cases infos with
      | nil => exact .nil
      | cons info infos => exact .cons ⟨rfl, improves⟩ ih

/-- Scoring improved results succeeds as well, with a score at least as large. -/
theorem score_mono {hasBatch : Bool} {raw raw' cases : List (CaseResult Value)} {total : ℚ}
    (improved : List.Forall₂ CaseResult.Improves raw raw')
    (worth : ∀ c ∈ raw, HasPoints c) (worth' : ∀ c ∈ raw', HasPoints c)
    (scored : score hasBatch false tests raw = .ok (cases, total)) :
    ∃ cases' total', score hasBatch false tests raw' = .ok (cases', total') ∧ total ≤ total' := by
  cases hasBatch with
  | true =>
      obtain ⟨infos, read, scored⟩ := bind_eq_ok.mp scored
      have total_eq : ∀ raw : List (CaseResult Value), (∀ c ∈ raw, HasPoints c) →
          aggregateBatches Value.number raw infos =
            .ok ((RawCases.layout (infos.zip raw)).map (RawCases.reported (infos.zip raw)),
              ((infos.zip raw).map fun x =>
                if RawCases.EarnsCase (infos.zip raw) x then pointValue x.2.points else 0).sum) := by
        intro raw worth
        rw [aggregateBatches_eq pointValue rfl
          (fun x hx => (worth x.2 (List.of_mem_zip hx).2).1) rfl, acPoints_layout rfl]
      rw [total_eq raw worth] at scored
      cases scored
      rw [improved.length_eq] at read
      refine ⟨_, _, bind_eq_ok.mpr ⟨infos, read, total_eq raw' worth'⟩, ?_⟩
      exact (zip_improved improved).total fun x hx => (worth' x.2 (List.of_mem_zip hx).2).2
  | false =>
      have total_eq : ∀ raw : List (CaseResult Value), (∀ c ∈ raw, HasPoints c) →
          score false false tests raw = .ok (raw, acPoints pointValue raw) := by
        intro raw worth
        have summed : sumPoints Value.number (raw.filter fun c => c.result = .AC) =
            .ok (acPoints pointValue raw) :=
          sumPoints_eq fun c hc => (worth c (List.mem_filter.mp hc).1).1
        rw [score, if_neg (by simp), if_neg (by simp), summed]
        rfl
      rw [total_eq raw worth] at scored
      cases scored
      exact ⟨_, _, total_eq raw' worth', acPoints_mono improved fun c hc => (worth' c hc).2⟩

end Scores

/-! ### Two runs of the loop -/

section Loop

/-- The same answer, or one whose case is accepted. -/
def Turned (answer answer' : CaseAnswer) : Prop :=
  answer' = answer ∨ caseVerdict answer' = .ok .AC

/-- The case of an answer has a result. -/
def HasOutcome (answer : CaseAnswer) : Prop := ∃ verdict, caseVerdict answer = .ok verdict

/-- Improved results, and a failure only where the first run has met one. -/
structure Progress.Below (stopOnFirst : Bool) (progress progress' : Progress) : Prop where
  results : List.Forall₂ CaseResult.Improves progress.results progress'.results
  failure : stopOnFirst = true → progress'.hadFailure = true → progress.hadFailure = true

variable {stopOnFirst : Bool} {tests : List Value}

theorem improves_of_skipped (caseNo : Int) (c : CaseResult Value) :
    (skippedResult caseNo).Improves c := nofun

theorem Progress.Below.snoc {progress progress' : Progress}
    (below : progress.Below stopOnFirst progress') {c c' : CaseResult Value} {fails fails' : Bool}
    (improves : c.Improves c')
    (failure : stopOnFirst = true → fails' = true → fails = true) :
    Progress.Below stopOnFirst ⟨progress.results ++ [c], fails⟩
      ⟨progress'.results ++ [c'], fails'⟩ :=
  ⟨List.rel_append below.results (.cons improves .nil), failure⟩

/-- Both runs judge one more case. -/
theorem judgeCase_below {p p' q q' : Progress} {answer answer' : CaseAnswer}
    (below : p.Below stopOnFirst p') (turned : Turned answer answer')
    (step : judgeCase stopOnFirst tests p answer = .ok q)
    (step' : judgeCase stopOnFirst tests p' answer' = .ok q') : q.Below stopOnFirst q' := by
  have aligned : p'.results.length = p.results.length := below.results.length_eq.symm
  obtain ⟨caseNo, hcaseNo, ended⟩ := judgeCase_cases step
  obtain ⟨caseNo', hcaseNo', ended'⟩ := judgeCase_cases step'
  rw [aligned] at ended'
  obtain ⟨_, failed, rfl⟩ | ⟨verdict, c, running, hverdict, hc, rfl⟩ := ended
  · -- the first run skips the case, and so has failed before
    obtain ⟨_, _, rfl⟩ | ⟨_, _, _, _, _, rfl⟩ := ended' <;>
      exact below.snoc (improves_of_skipped _ _) fun _ _ => rfl
  · obtain ⟨stop, failed', _⟩ | ⟨verdict', c', running', hverdict', hc', rfl⟩ := ended'
    · exact absurd ⟨stop, below.failure stop failed'⟩ running
    · obtain ⟨_, hresult, hpoints⟩ := caseResult_result hc
      obtain ⟨_, hresult', hpoints'⟩ := caseResult_result hc'
      have accepted : verdict = .AC → verdict' = .AC := by
        rintro rfl
        rcases turned with rfl | passes
        · exact Except.ok.inj (hverdict'.symm.trans hverdict)
        · exact Except.ok.inj (hverdict'.symm.trans passes)
      have still : stopOnFirst = true → verdict' ≠ .AC → verdict ≠ .AC :=
        fun _ failed' => mt accepted failed'
      refine below.snoc ?_ ?_
      · intro hAC
        rw [hresult] at hAC
        exact ⟨hresult'.trans (accepted hAC), Except.ok.inj (hpoints'.symm.trans hpoints)⟩
      · intro stop failed'
        rw [Bool.or_eq_true, bne_iff_ne] at failed' ⊢
        exact failed'.imp (below.failure stop) (still stop)

/-- A value one key can be read from is a dictionary. -/
theorem get_of_get {v x : Value} {name : String} {default : Value}
    (h : v.get name default = .ok x) (name' : String) (default' : Value) :
    ∃ y, v.get name' default' = .ok y := by
  cases v with
  | dict fields => exact ⟨_, rfl⟩
  | _ => cases h

/-- Where every case has a result, the second run gets as far as the first one. -/
theorem judgeCase_below_ok {p p' q : Progress} {answer answer' : CaseAnswer}
    (below : p.Below stopOnFirst p') (turned : Turned answer answer')
    (outcome : HasOutcome answer) (step : judgeCase stopOnFirst tests p answer = .ok q) :
    ∃ q', judgeCase stopOnFirst tests p' answer' = .ok q' := by
  have aligned : p'.results.length = p.results.length := below.results.length_eq.symm
  obtain ⟨caseNo, hcaseNo, _⟩ := judgeCase_cases step
  obtain ⟨declared, hdeclared, _⟩ := bind_eq_ok.mp hcaseNo
  obtain ⟨points, hpoints⟩ := get_of_get hdeclared "points" (.int 0)
  have verdict' : HasOutcome answer' := by
    rcases turned with rfl | passes
    · exact outcome
    · exact ⟨_, passes⟩
  obtain ⟨verdict', hverdict'⟩ := verdict'
  simp only [judgeCase, aligned]
  split
  · exact ⟨_, bind_eq_ok.mpr ⟨caseNo, hcaseNo, rfl⟩⟩
  · exact ⟨_, bind_eq_ok.mpr ⟨caseNo, hcaseNo, bind_eq_ok.mpr ⟨verdict', hverdict',
      bind_eq_ok.mpr ⟨_, bind_eq_ok.mpr ⟨points, hpoints, rfl⟩, rfl⟩⟩⟩⟩

theorem foldlM_judgeCase_below {answers answers' : List CaseAnswer} {p p' q : Progress}
    (turned : List.Forall₂ Turned answers answers') (below : p.Below stopOnFirst p')
    (run : answers.foldlM (judgeCase stopOnFirst tests) p = .ok q) :
    (∀ q', answers'.foldlM (judgeCase stopOnFirst tests) p' = .ok q' → q.Below stopOnFirst q') ∧
      ((∀ answer ∈ answers, HasOutcome answer) →
        ∃ q', answers'.foldlM (judgeCase stopOnFirst tests) p' = .ok q') := by
  induction turned generalizing p p' with
  | nil =>
      cases run
      refine ⟨?_, fun _ => ⟨p', rfl⟩⟩
      rintro q' ⟨⟩
      exact below
  | cons turn _ ih =>
      rw [List.foldlM_cons] at run
      obtain ⟨next, step, run⟩ := bind_eq_ok.mp run
      constructor
      · intro q' run'
        rw [List.foldlM_cons] at run'
        obtain ⟨next', step', run'⟩ := bind_eq_ok.mp run'
        exact (ih (judgeCase_below below turn step step') run).1 q' run'
      · intro outcomes
        obtain ⟨next', step'⟩ :=
          judgeCase_below_ok below turn (outcomes _ (List.mem_cons_self ..)) step
        obtain ⟨q', run'⟩ := (ih (judgeCase_below below turn step step') run).2
          fun answer hanswer => outcomes answer (List.mem_cons_of_mem _ hanswer)
        exact ⟨q', (List.foldlM_cons ..).trans (bind_eq_ok.mpr ⟨next', step', run'⟩)⟩

end Loop

/-! ### Whole runs -/

section Runs

variable {submissionId problem : Value} {tests : List Value} {stopOnFirst hasBatch : Bool}

/-- The test cases are worth numbers that are not negative. -/
def WorthPoints (tests : List Value) : Prop :=
  ∀ tc ∈ tests, ∃ points, (tc.get "points" (.int 0) >>= Value.number) = .ok points ∧ 0 ≤ points

theorem Progress.Reports.hasPoints {progress : Progress} {answers : List CaseAnswer} {n : ℕ}
    (seen : progress.Reports stopOnFirst tests answers n) (within : n ≤ tests.length)
    (worth : WorthPoints tests) : ∀ c ∈ progress.results, HasPoints c := by
  intro c hc
  obtain ⟨i, hi⟩ := List.mem_iff_getElem?.mp hc
  obtain ⟨inside, _⟩ := List.getElem?_eq_some_iff.mp hi
  have bound : i < tests.length := by
    have := seen.length
    omega
  obtain ⟨caseNo, _, ⟨answer, verdict, _, _, hresult⟩ | ⟨_, rfl⟩⟩ := seen.entries i c hi
  · have tc : caseMeta tests i ∈ tests := by
      have here : caseMeta tests i = tests[i] := by simp [caseMeta, bound]
      exact here ▸ List.getElem_mem bound
    obtain ⟨points, hpoints, nonneg⟩ := worth _ tc
    rw [(caseResult_result hresult).2.2] at hpoints
    change c.points.number = .ok points at hpoints
    exact ⟨(pointValue_eq hpoints).symm ▸ hpoints, (pointValue_eq hpoints).symm ▸ nonneg⟩
  · exact ⟨rfl, le_refl 0⟩

/-- With an answer for every test case nothing is padded. -/
theorem padSkipped_full {progress : Progress} (full : progress.results.length = tests.length) :
    padSkipped stopOnFirst tests progress = .ok progress.results := by
  have nothing : tests.zipIdx.drop progress.results.length = [] := by simp [full]
  rw [padSkipped, nothing]
  split
  · change Except.ok (progress.results ++ []) = _
    rw [List.append_nil]
  · rfl

theorem overallResult_ok {score : ℚ} {cases : List (CaseResult Value)} {verdict : Verdict}
    (h : overallResult false score problem cases = .ok verdict) (score' : ℚ)
    (cases' : List (CaseResult Value)) :
    ∃ verdict', overallResult false score' problem cases' = .ok verdict' := by
  obtain ⟨declared, hdeclared, h⟩ := bind_eq_ok.mp h
  obtain ⟨points, hpoints, _⟩ := bind_eq_ok.mp h
  exact ⟨_, bind_eq_ok.mpr ⟨declared, hdeclared, bind_eq_ok.mpr ⟨points, hpoints, rfl⟩⟩⟩

/-- What is assembled from a full list of answers to a program that compiled. -/
theorem assemble_full {r : JudgeResult Value} (batch : BatchAnswer)
    (full : batch.cases.length = tests.length) (compiled : batch.compile.status = .AC) :
    assemble submissionId problem tests stopOnFirst hasBatch batch = .ok r →
    ∃ progress cases verdict,
      batch.cases.foldlM (judgeCase stopOnFirst tests) ⟨[], false⟩ = .ok progress ∧
      score hasBatch false tests progress.results = .ok (cases, r.score) ∧
      overallResult false r.score problem cases = .ok verdict ∧ r.status = .COMPLETED := by
  intro h
  obtain ⟨progress, loop, h⟩ := bind_eq_ok.mp h
  obtain ⟨raw, padded, h⟩ := bind_eq_ok.mp h
  obtain ⟨⟨cases, total⟩, scored, h⟩ := bind_eq_ok.mp h
  obtain ⟨verdict, hverdict, h⟩ := bind_eq_ok.mp h
  cases h
  have length := (foldlM_judgeCase_reports loop).length
  obtain rfl := Except.ok.inj ((padSkipped_full (length.trans full)).symm.trans padded)
  simp only [compiled, ne_eq, not_true_eq_false, decide_false] at scored hverdict
  exact ⟨progress, cases, verdict, loop, scored, hverdict, rfl⟩

theorem assemble_mono {batch : BatchAnswer} {answers' : List CaseAnswer} {r : JudgeResult Value}
    (full : batch.cases.length = tests.length) (compiled : batch.compile.status = .AC)
    (turned : List.Forall₂ Turned batch.cases answers') (worth : WorthPoints tests)
    (assembled : assemble submissionId problem tests stopOnFirst hasBatch batch = .ok r) :
    (∀ r', assemble submissionId problem tests stopOnFirst hasBatch
        { batch with cases := answers' } = .ok r' → r.score ≤ r'.score) ∧
      ((∀ answer ∈ batch.cases, HasOutcome answer) →
        ∃ r', assemble submissionId problem tests stopOnFirst hasBatch
          { batch with cases := answers' } = .ok r' ∧ r'.status = .COMPLETED) := by
  obtain ⟨progress, cases, verdict, loop, scored, hverdict, _⟩ :=
    assemble_full batch full compiled assembled
  have full' : answers'.length = tests.length := turned.length_eq ▸ full
  have start : Progress.Below stopOnFirst ⟨[], false⟩ ⟨[], false⟩ := ⟨.nil, nofun⟩
  have loops := foldlM_judgeCase_below turned start loop
  have rescored : ∀ progress',
      answers'.foldlM (judgeCase stopOnFirst tests) ⟨[], false⟩ = .ok progress' →
      ∃ cases' total', score hasBatch false tests progress'.results = .ok (cases', total') ∧
        r.score ≤ total' := by
    intro progress' loop'
    exact score_mono (loops.1 progress' loop').results
      ((foldlM_judgeCase_reports loop).hasPoints full.le worth)
      ((foldlM_judgeCase_reports loop').hasPoints full'.le worth) scored
  constructor
  · intro r' assembled'
    obtain ⟨progress', cases₁, _, loop', scored₁, _⟩ :=
      assemble_full { batch with cases := answers' } full' compiled assembled'
    obtain ⟨cases', total', scored', le⟩ := rescored progress' loop'
    cases scored₁.symm.trans scored'
    exact le
  · intro outcomes
    obtain ⟨progress', loop'⟩ := loops.2 outcomes
    obtain ⟨cases', total', scored', _⟩ := rescored progress' loop'
    obtain ⟨verdict', hverdict'⟩ := overallResult_ok hverdict total' cases'
    have length := (foldlM_judgeCase_reports loop').length
    have failed : decide (batch.compile.status ≠ .AC) = false := by simp [compiled]
    refine ⟨_, bind_eq_ok.mpr ⟨progress', loop', bind_eq_ok.mpr ⟨_,
      padSkipped_full (length.trans full'), bind_eq_ok.mpr ⟨(cases', total'), ?_,
      bind_eq_ok.mpr ⟨verdict', ?_, rfl⟩⟩⟩⟩, rfl⟩
    · rw [← scored', ← failed]
    · rw [← hverdict', ← failed]

/-- With points that are not negative, and whichever way a submission is scored, turning some
cases of a program that compiled into accepted ones does not lower its score; where every case
has a result, the second submission is judged to its end as well. -/
theorem judge_score_mono {σ : Type} {h : World σ} {payload : Value} {tests : List Value}
    (read : (payload.item "test_cases" >>= Value.elements) = .ok tests)
    (worth : WorthPoints tests)
    (full : ∀ request s batch s', h (.runCases request) s = (.ok batch, s') →
      batch.cases.length = request.cases.length)
    (compiled : ∀ request s batch s', h (.runCases request) s = (.ok batch, s') →
      batch.compile.status = .AC)
    {turn report report' : RunCases → List CaseAnswer → List CaseAnswer}
    (turned : ∀ request cases, List.Forall₂ Turned cases (turn request cases))
    (stops : MayStop report) (stops' : MayStop report') {s s' : σ} {r : JudgeResult Value}
    (run : (judge payload).run (mapCases report h) s = (.ok r, s')) :
    (∀ r' t, (judge payload).run
        (mapCases (fun request cases => report' request (turn request cases)) h) s = (.ok r', t) →
      r.score ≤ r'.score) ∧
    ((∀ request s batch s', h (.runCases request) s = (.ok batch, s') →
        ∀ answer ∈ batch.cases, HasOutcome answer) →
      ∃ r' t, (judge payload).run
          (mapCases (fun request cases => report' request (turn request cases)) h) s =
            (.ok r', t) ∧
        r'.status = r.status) := by
  have full' : ∀ request s batch s', mapCases turn h (.runCases request) s = (.ok batch, s') →
      batch.cases.length = request.cases.length := by
    intro request s batch s' answered
    rw [mapCases] at answered
    split at answered
    · rename_i batch' _ answered'
      cases answered
      exact (turned request batch'.cases).length_eq.symm.trans (full _ _ _ _ answered')
    · cases answered
  rw [run_mayStop stops full] at run
  rw [← mapCases_mapCases, run_mayStop stops' full']
  rcases alike_judge turn h payload s with
    alike | ⟨x, y, t, first, second, submissionId, problem, tests', stopOnFirst, hasBatch, request,
      batch, u, u', asked, answered, rfl, rfl⟩
  · rw [alike, run]
    refine ⟨?_, fun _ => ⟨r, s', rfl, rfl⟩⟩
    rintro r' t ⟨⟩
    exact le_refl _
  · obtain rfl := Except.ok.inj (asked.readTests.symm.trans read)
    have assembled := (Prod.mk.inj (first.symm.trans run)).1
    have count := (full _ _ _ _ answered).trans asked.count
    obtain ⟨le, judged⟩ := assemble_mono count (compiled _ _ _ _ answered)
      (turned request batch.cases) worth assembled
    obtain ⟨_, _, _, _, _, _, completed⟩ :=
      assemble_full batch count (compiled _ _ _ _ answered) assembled
    rw [second]
    refine ⟨fun r' t' run' => le r' (Prod.mk.inj run').1, fun outcomes => ?_⟩
    obtain ⟨r', assembled', completed'⟩ := judged (outcomes _ _ _ _ answered)
    exact ⟨r', t, Prod.ext assembled' rfl, completed'.trans completed.symm⟩

/-- A case of the second batch counts only if the first batch passes. -/
def dependentCases : List Value :=
  [.dict [("case_no", .int 1), ("points", .int 20), ("batch_no", .int 1)],
    .dict [("case_no", .int 2), ("points", .int 30), ("batch_no", .int 2),
      ("batch_depends", .list [.int 1])]]

/-- The right output in place of every other. -/
def corrected (_ : RunCases) (cases : List CaseAnswer) : List CaseAnswer :=
  cases.map fun _ => printed "1"

theorem judge_score_mono_dependent :
    ∃ r s' r' t,
      (judge (requestWorth 100 true dependentCases)).run
        (mapCases (fun _ cases => cases) (printingWorld "2")) () = (.ok r, s') ∧
      (judge (requestWorth 100 true dependentCases)).run
        (mapCases corrected (printingWorld "2")) () = (.ok r', t) ∧
      r.score = 0 ∧ r.score ≤ r'.score := by
  have read : (requestWorth 100 true dependentCases).item "test_cases" >>= Value.elements =
      .ok dependentCases := rfl
  have worth : WorthPoints dependentCases := by
    intro tc htc
    rcases List.mem_pair.mp htc with rfl | rfl
    · exact ⟨20, rfl, by norm_num⟩
    · exact ⟨30, rfl, by norm_num⟩
  have passes : caseVerdict (printed "1") = .ok .AC := by decide +kernel
  have all : MayStop fun _ cases => cases := fun _ _ => .inl rfl
  have turned : ∀ request cases, List.Forall₂ Turned cases (corrected request cases) := by
    intro _ cases
    rw [corrected, List.forall₂_map_right_iff, List.forall₂_same]
    exact fun _ _ => .inr passes
  obtain ⟨r, s', run, outcome⟩ := Program.run_of_map
    (mapCases (fun _ cases => cases) (printingWorld "2"))
    (p := judge (requestWorth 100 true dependentCases)) (s := ()) (f := fun r => r.score) (b := 0)
    (by decide +kernel)
  obtain ⟨le, judged⟩ := judge_score_mono read worth (by rintro _ _ _ _ ⟨⟩; simp)
    (by rintro _ _ _ _ ⟨⟩; rfl) turned all all run
  obtain ⟨r', t, run', _⟩ := judged (by
    rintro _ _ _ _ ⟨⟩ answer hanswer
    obtain ⟨_, _, rfl⟩ := List.mem_map.mp hanswer
    exact ⟨.WA, by decide +kernel⟩)
  exact ⟨r, s', r', t, run, run', outcome, le r' t run'⟩

end Runs

end StandardMode

end AcojWorker
