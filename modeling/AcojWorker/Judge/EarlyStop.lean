import AcojWorker.Judge.StandardVerdict

/-!
# Stopping at the first failure

Without partial scores and without batches the sandbox may stop after the first case that
does not run through. The worker skips what comes after a failure anyway, whether or not the
sandbox went on: nothing of a result tells the two apart.
-/

namespace AcojWorker

open Python Effect

/-- The cases up to the first one that did not run through. -/
def untilFailure : List CaseAnswer → List CaseAnswer
  | [] => []
  | answer :: answers =>
      if answer.status = .AC then answer :: untilFailure answers else [answer]

namespace StandardMode

/-- Neither partial scores nor batches. -/
structure IsAcm (payload : Value) (tests : List Value) : Prop where
  read : (payload.item "test_cases" >>= Value.elements) = .ok tests
  unpartial : ∃ problem partialScore, payload.item "problem" = .ok problem ∧
    problem.get "partial" (.bool false) = .ok partialScore ∧ partialScore.truthy = false
  unbatched : anyBatch tests = .ok false

section Loop

variable {tests : List Value}

/-- The loop and the padding after it, from some progress on. -/
def finish (tests : List Value) (answers : List CaseAnswer) (progress : Progress) :
    Except Exc (List (CaseResult Value)) :=
  answers.foldlM (judgeCase true tests) progress >>= padSkipped true tests

theorem finish_cons (answer : CaseAnswer) (answers : List CaseAnswer) (progress : Progress) :
    finish tests (answer :: answers) progress =
      judgeCase true tests progress answer >>= finish tests answers := by
  rw [finish, List.foldlM_cons, bind_assoc]
  rfl

theorem judgeCase_length {stopOnFirst : Bool} {progress next : Progress} {answer : CaseAnswer}
    (step : judgeCase stopOnFirst tests progress answer = .ok next) :
    next.results.length = progress.results.length + 1 := by
  obtain ⟨caseNo, _, ⟨_, _, rfl⟩ | ⟨verdict, c, _, _, _, rfl⟩⟩ := judgeCase_cases step <;> simp

theorem judgeCase_failed {stopOnFirst : Bool} {progress next : Progress} {answer : CaseAnswer}
    (step : judgeCase stopOnFirst tests progress answer = .ok next) (bad : answer.status ≠ .AC) :
    next.hadFailure = true := by
  obtain ⟨caseNo, _, ⟨_, _, rfl⟩ | ⟨verdict, c, _, hverdict, _, rfl⟩⟩ := judgeCase_cases step
  · rfl
  · have now : verdict ≠ .AC := by
      rintro rfl
      exact bad (caseVerdict_AC_status hverdict)
    simp [now]

/-- After a failure, skipping the answers that are left and padding for them are the same. -/
theorem finish_of_failure (answers : List CaseAnswer) (progress : Progress)
    (failed : progress.hadFailure = true)
    (full : progress.results.length + answers.length = tests.length) :
    finish tests answers progress = padSkipped true tests progress := by
  induction answers generalizing progress with
  | nil => rfl
  | cons answer answers ih =>
      have here : progress.results.length < tests.length := by
        rw [← full, List.length_cons]
        omega
      have next : tests.zipIdx.drop progress.results.length =
          (caseMeta tests progress.results.length, progress.results.length) ::
            tests.zipIdx.drop (progress.results.length + 1) := by
        rw [List.drop_eq_getElem_cons (by simpa using here)]
        simp [caseMeta, here]
      rw [finish_cons, judgeCase, padSkipped, next, List.mapM_cons]
      simp only [failed, Bool.and_self, if_true]
      cases caseNumber (caseMeta tests progress.results.length) progress.results.length with
      | error e => rfl
      | ok caseNo =>
          refine (ih ⟨progress.results ++ [skippedResult caseNo], true⟩ rfl (by
            rw [← full, List.length_append, List.length_cons, List.length_cons, List.length_nil]
            omega)).trans ?_
          rw [padSkipped, List.length_append, List.length_singleton]
          simp only [Bool.and_self, if_true, bind_assoc]
          change _ = (List.mapM _ _ >>= fun rest => _)
          simp only [pure_bind, List.append_assoc, List.singleton_append]

theorem finish_untilFailure (answers : List CaseAnswer) (progress : Progress)
    (full : progress.results.length + answers.length = tests.length) :
    finish tests (untilFailure answers) progress = finish tests answers progress := by
  induction answers generalizing progress with
  | nil => rfl
  | cons answer answers ih =>
      rw [untilFailure, finish_cons]
      split
      · rw [finish_cons]
        cases step : judgeCase true tests progress answer with
        | error e => rfl
        | ok next =>
            refine ih next ?_
            rw [judgeCase_length step, ← full, List.length_cons]
            omega
      · rename_i bad
        rw [finish_cons]
        cases step : judgeCase true tests progress answer with
        | error e => rfl
        | ok next =>
            refine (finish_of_failure answers next (judgeCase_failed step bad) ?_).symm
            rw [judgeCase_length step, ← full, List.length_cons]
            omega

end Loop

/-! ### Whole runs -/

section Runs

variable {submissionId problem : Value} {tests : List Value} {hasBatch : Bool}

theorem assemble_untilFailure {batch : BatchAnswer} (full : batch.cases.length = tests.length) :
    assemble submissionId problem tests true hasBatch
        { batch with cases := untilFailure batch.cases } =
      assemble submissionId problem tests true hasBatch batch := by
  have same := finish_untilFailure batch.cases ⟨[], false⟩ (by simpa using full)
  exact (bind_assoc _ _ _).symm.trans ((congrArg (· >>= _) same).trans (bind_assoc _ _ _))

/-- All cases, or no more than asked for when the first failure ends the submission. -/
def MayStop (report : RunCases → List CaseAnswer → List CaseAnswer) : Prop :=
  ∀ request cases, report request cases = cases ∨
    request.stopOnFirstFailure = true ∧ report request cases = untilFailure cases

theorem run_mayStop {σ : Type} {h : World σ} {payload : Value}
    {report : RunCases → List CaseAnswer → List CaseAnswer} (stops : MayStop report)
    (full : ∀ request s batch s', h (.runCases request) s = (.ok batch, s') →
      batch.cases.length = request.cases.length) (s : σ) :
    (judge payload).run (mapCases report h) s = (judge payload).run h s := by
  refine run_mapCases (fun {_ _ _ _ _ request batch _ _} asked answer => ?_) s
  rcases stops request batch.cases with all | ⟨stop, some⟩
  · rw [all]
  · obtain rfl := asked.stops.symm.trans stop
    rw [some, assemble_untilFailure ((full _ _ _ _ answer).trans asked.count)]

/-- The cases of an assembled result that has neither partial scores nor batches. -/
theorem assemble_cases {batch : BatchAnswer} {r : JudgeResult Value}
    (full : batch.cases.length = tests.length)
    (h : assemble submissionId problem tests true false batch = .ok r) :
    RawResults true tests batch.cases r.cases := by
  obtain ⟨progress, loop, h⟩ := bind_eq_ok.mp h
  obtain ⟨raw, padded, h⟩ := bind_eq_ok.mp h
  obtain ⟨⟨cases, total⟩, scored, h⟩ := bind_eq_ok.mp h
  obtain ⟨verdict, _, h⟩ := bind_eq_ok.mp h
  cases h
  have same : cases = raw := score_unbatched scored
  exact same ▸ padSkipped_raw (foldlM_judgeCase_reports loop) full.le padded

/-- Whether the sandbox goes on after the first failed run or stops there, a submission
without partial scores and without batches is judged alike; it is reported as accepted cases,
then at most one failed case, then skipped cases, one entry for each test case. -/
theorem judge_earlyStop {σ : Type} {h : World σ} {payload : Value} {tests : List Value}
    (acm : IsAcm payload tests)
    (full : ∀ request s batch s', h (.runCases request) s = (.ok batch, s') →
      batch.cases.length = request.cases.length) (s : σ) :
    (judge payload).run (mapCases (fun _ => untilFailure) h) s = (judge payload).run h s ∧
      ∀ r s', (judge payload).run h s = (.ok r, s') →
        r.cases.length = tests.length ∧
        ((∀ c ∈ r.cases, c.result = .AC) ∨ FailsOnce r.cases) ∧
        ∀ i c, r.cases[i]? = some c → ∃ caseNo,
          caseNumber (caseMeta tests i) i = .ok caseNo ∧ c.caseNo = .int caseNo := by
  obtain ⟨read, ⟨problem, partialScore, hproblem, hpartial, off⟩, unbatched⟩ := acm
  -- the sandbox is asked to stop, and about as many cases as there are
  have stops : ∀ {submissionId problem' tests' stopOnFirst hasBatch request},
      Asked payload submissionId problem' tests' stopOnFirst hasBatch request →
      tests' = tests ∧ stopOnFirst = true ∧ hasBatch = false := by
    intro submissionId problem' tests' stopOnFirst hasBatch request asked
    obtain rfl := Except.ok.inj (asked.readTests.symm.trans read)
    obtain rfl := Except.ok.inj (asked.readProblem.symm.trans hproblem)
    obtain rfl := Except.ok.inj (asked.readBatches.symm.trans unbatched)
    obtain ⟨partialScore', hpartial', rfl⟩ := asked.strategy
    obtain rfl := Except.ok.inj (hpartial'.symm.trans hpartial)
    exact ⟨rfl, by simp [off], rfl⟩
  have answered := ensures_answered (h := h) payload
  constructor
  · refine run_mapCases (fun {submissionId problem' tests' stopOnFirst hasBatch request batch t t'}
      asked answer => ?_) s
    obtain ⟨rfl, rfl, rfl⟩ := stops asked
    exact assemble_untilFailure ((full _ _ _ _ answer).trans asked.count)
  · intro r s' run
    obtain ⟨submissionId, problem', tests', _, _, read', ended⟩ := answered s r s' run
    obtain rfl := Except.ok.inj (read'.symm.trans read)
    obtain ⟨rfl, rfl⟩ | ⟨_, _, request, batch, t, t', asked, answer, assembled⟩ := ended
    · exact ⟨rfl, .inl nofun, nofun⟩
    · obtain ⟨-, rfl, rfl⟩ := stops asked
      have count := (full _ _ _ _ answer).trans asked.count
      have raw := assemble_cases count assembled
      refine ⟨raw.length.elim (·.trans count) id, raw.shape rfl, ?_⟩
      intro i c hc
      obtain ⟨caseNo, hcaseNo, ⟨answer, verdict, _, _, hresult⟩ | ⟨_, rfl⟩⟩ := raw.entries i c hc
      · exact ⟨caseNo, hcaseNo, (caseResult_result hresult).1⟩
      · exact ⟨caseNo, hcaseNo, rfl⟩

/-- A run that ended with a time limit. -/
def timedOut : CaseAnswer :=
  { printed "" with status := .TLE, run := { finished with status := .TLE } }

/-- Every run times out, and the sandbox runs every case. -/
def slowWorld : World Unit :=
  mapCases (fun request _ => request.cases.map fun _ => timedOut) (scriptOf []).world

theorem judge_earlyStop_slow :
    ∃ r s', (judge (requestWorth 100 false [freeCase, freeCase])).run
        (mapCases (fun _ => untilFailure) slowWorld) () = (.ok r, s') ∧
      r.cases.length = 2 ∧ FailsOnce r.cases := by
  have acm : IsAcm (requestWorth 100 false [freeCase, freeCase]) [freeCase, freeCase] :=
    ⟨rfl, ⟨_, _, rfl, rfl, rfl⟩, rfl⟩
  have full : ∀ request s batch s', slowWorld (.runCases request) s = (.ok batch, s') →
      batch.cases.length = request.cases.length := by
    rintro request _ _ _ ⟨⟩
    simp
  obtain ⟨same, shape⟩ := judge_earlyStop acm full ()
  obtain ⟨r, s', run, outcome⟩ := Program.run_of_map slowWorld
    (p := judge (requestWorth 100 false [freeCase, freeCase])) (s := ())
    (f := fun r => r.cases.map fun c => c.result) (b := [.TLE, .SKIPPED])
    (by decide +kernel)
  obtain ⟨length, shape, _⟩ := shape r s' run
  refine ⟨r, s', same.trans run, length, shape.resolve_left ?_⟩
  intro accepted
  have timedOut : Verdict.TLE ∈ r.cases.map fun c => c.result := outcome ▸ List.mem_cons_self ..
  obtain ⟨c, hc, slow⟩ := List.mem_map.mp timedOut
  exact nomatch (accepted c hc).symm.trans slow

end Runs

end StandardMode

end AcojWorker
