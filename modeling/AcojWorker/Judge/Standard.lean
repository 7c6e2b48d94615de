import AcojWorker.Judge.Inputs
import AcojWorker.Judge.Scoring

/-!
# The STANDARD mode

All cases are handed to the sandbox at once. Without partial scores and without batches it
stops at the first failing case, and the cases after that one are reported as skipped.
-/

namespace AcojWorker.StandardMode

open Python Effect

/-- `any(tc.get("batch_no") for tc in test_cases)`. -/
def anyBatch : List Value → Except Exc Bool
  | [] => .ok false
  | tc :: tcs => do
      let batchNo ← tc.get "batch_no" .none
      if batchNo.truthy then return true
      anyBatch tcs

/-- `test_cases_data[i] if i < len(test_cases_data) else {}`. -/
def caseMeta (tests : List Value) (i : Nat) : Value := tests.getD i (.dict [])

/-- `int(tc_meta.get("case_no") or (i + 1))`. -/
def caseNumber (tcMeta : Value) (i : Nat) : Except Exc Int := do
  let declared ← tcMeta.get "case_no" .none
  (declared.orElse (.int (i + 1))).asInt

def skippedResult (caseNo : Int) : CaseResult Value :=
  ⟨.int caseNo, .SKIPPED, 0, 0, .int 0, "", ""⟩

/-- The result of a case: how its run ended, or how its output compares. -/
def caseVerdict (answer : CaseAnswer) : Except Exc Verdict :=
  if answer.status = .AC then do
    let outputMatch ← outputsMatch answer.files (some answer.actualOutput.toDataRef)
      (answer.expectedOutput.map LoadedRef.toDataRef)
    return if outputMatch then .AC else .WA
  else
    return toOjResult answer.status

def caseResult (tcMeta : Value) (caseNo : Int) (answer : CaseAnswer) (verdict : Verdict) :
    Except Exc (CaseResult Value) := do
  let points ← tcMeta.get "points" (.int 0)
  return ⟨.int caseNo, verdict, reportedRunTimeMs answer.run, answer.run.memoryBytes / 1024,
    points, answer.actualOutput.previewText, answer.stderrPreview⟩

/-- The results so far and whether one of them is a failure. -/
structure Progress where
  results : List (CaseResult Value)
  hadFailure : Bool

/-- One round of the loop over the sandbox's answers. -/
def judgeCase (stopOnFirst : Bool) (tests : List Value) (progress : Progress)
    (answer : CaseAnswer) : Except Exc Progress := do
  let i := progress.results.length
  let tcMeta := caseMeta tests i
  let caseNo ← caseNumber tcMeta i
  if stopOnFirst && progress.hadFailure then
    return { progress with results := progress.results ++ [skippedResult caseNo] }
  let verdict ← caseVerdict answer
  let result ← caseResult tcMeta caseNo answer verdict
  return ⟨progress.results ++ [result], progress.hadFailure || verdict != .AC⟩

/-- The cases the sandbox did not get to are skipped. -/
def padSkipped (stopOnFirst : Bool) (tests : List Value) (progress : Progress) :
    Except Exc (List (CaseResult Value)) :=
  if stopOnFirst && progress.hadFailure then do
    let missing ← ((tests.zipIdx).drop progress.results.length).mapM fun tc => do
      return skippedResult (← caseNumber tc.1 tc.2)
    return progress.results ++ missing
  else
    return progress.results

/-- `tc.get("batch_depends") or …`, a list of batch numbers. -/
def dependencyKeys (declared : Value) : Except Exc (List Key) :=
  if declared.truthy then do
    (← declared.elements).mapM Value.key
  else
    return []

/-- What scoring reads of a test case; dependencies matter only inside a batch. -/
def batchInfo (tc : Value) : Except Exc (BatchInfo Key) := do
  match ← tc.get "batch_no" .none with
  | .none => return ⟨none, [], []⟩
  | batchNo => do
      let key ← batchNo.key
      let batchDepends ← dependencyKeys (← tc.get "batch_depends" .none)
      let batchDependencies ←
        if batchDepends.isEmpty then dependencyKeys (← tc.get "batch_dependencies" .none)
        else pure []
      return ⟨some key, batchDepends, batchDependencies⟩

/-- Cases and score, by batches or case by case. -/
def score (hasBatch hasCe : Bool) (tests : List Value) (raw : List (CaseResult Value)) :
    Except Exc (List (CaseResult Value) × ℚ) :=
  if hasBatch then do
    let infos ← (tests.take raw.length).mapM batchInfo
    aggregateBatches Value.number raw infos
  else if hasCe then
    return (raw, 0)
  else do
    let score ← sumPoints Value.number (raw.filter fun c => c.result = .AC)
    return (raw, score)

/-- Reaching the points of the problem is an accepted submission, whatever its cases. -/
def overallResult (hasCe : Bool) (score : ℚ) (problem : Value)
    (cases : List (CaseResult Value)) : Except Exc Verdict :=
  if hasCe then return .CE
  else do
    let points ← (← problem.item "points").number
    return if points ≤ score then .AC else computeOverallResult false cases

/-- Everything that follows the sandbox's answer. -/
def assemble (submissionId problem : Value) (tests : List Value) (stopOnFirst hasBatch : Bool)
    (batch : BatchAnswer) : Except Exc (JudgeResult Value) := do
  let hasCe : Bool := batch.compile.status ≠ .AC
  let progress ← batch.cases.foldlM (judgeCase stopOnFirst tests) ⟨[], false⟩
  let raw ← padSkipped stopOnFirst tests progress
  let (cases, score) ← score hasBatch hasCe tests raw
  let result ← overallResult hasCe score problem cases
  let (runTimeMs, runMemoryKb) := runMetricsFromCases cases
  let (compileTimeMs, compileMemoryKb) := compileMetricsFromProcess (some batch.compile)
  return {
    submissionId := submissionId
    status := .COMPLETED
    result := some result
    score := score
    timeMs := runTimeMs
    memoryKb := runMemoryKb
    compileTimeMs := compileTimeMs
    compileMemoryKb := compileMemoryKb
    compileOutput := some (orText batch.message batch.compile.message)
    compileError := hasCe
    cases := cases
    error := none
    wallTimeMs := 0 }

def judge (payload : Value) : Judging (JudgeResult Value) := do
  let submissionId ← payload.item "submission_id"
  let problem ← payload.item "problem"
  let languageCfg ← payload.item "language"
  let source ← payload.item "source"
  let tests ← (← payload.item "test_cases").elements
  let partialScore ← problem.get "partial" (.bool false)
  let language ← buildLanguagesConfig languageCfg "main"
  let languageKey ← languageCfg.item "key"
  let cases ← buildJudgeCases tests problem
  if cases.isEmpty then
    return errorVerdict submissionId "没有测试点数据"
  let hasBatch ← anyBatch tests
  let stopOnFirst := !partialScore.truthy && !hasBatch
  let client : Nat ← call (.createClient language)
  let batch : BatchAnswer ← Program.onRaise (do
      call .isolationConfig
      call .cgroupConfig
      let standardParallelism : Int ← call .standardParallelism
      let parallelism := max 1 standardParallelism
      call (.runCases ⟨client, languageKey, source, cases, stopOnFirst,
        if stopOnFirst then 1 else min parallelism cases.length⟩))
    (call (.closeClient client))
  Program.tryFinally (liftM (assemble submissionId problem tests stopOnFirst hasBatch batch))
    (do
      call (.closeBatch batch.id)
      call (.closeClient client))

end AcojWorker.StandardMode
