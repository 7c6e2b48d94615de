import AcojWorker.Judge.Inputs

/-!
# The SPECIAL_JUDGE mode

The user's program and the checker are compiled once; then every case is run and its output
handed to the checker. All cases are worth the same share of the problem's points.
-/

namespace AcojWorker

open Python Effect

/-- What a mode that runs its cases one by one has gathered so far. -/
structure Tally where
  cases : List (CaseResult Value)
  allAC : Bool
  totalScore : ℚ
  compileTimeMs : Int
  compileMemoryKb : Int

def Tally.start (compileTimeMs compileMemoryKb : Int) : Tally :=
  ⟨[], true, 0, compileTimeMs, compileMemoryKb⟩

/-- A case that cannot be run. -/
def Tally.addFailed (tally : Tally) (c : CaseResult Value) : Tally :=
  { tally with cases := tally.cases ++ [c], allAC := false }

/-- A case that was run; an accepted one earns `points`. -/
def Tally.addRun (tally : Tally) (points : ℚ) (c : CaseResult Value) : Tally :=
  if c.result = .AC then
    { tally with
      cases := tally.cases ++ [{ c with points := .float points }]
      totalScore := tally.totalScore + points }
  else
    tally.addFailed { c with points := .float 0 }

/-- `problem["points"] / max(len(test_cases_data), 1)`. -/
def perCasePoints (problem : Value) (tests : List Value) : Except Exc ℚ := do
  let points ← (← problem.item "points").number
  return points / (max tests.length 1 : ℕ)

/-- The completed result of a mode that runs its cases one by one. -/
def Tally.result (tally : Tally) (submissionId : Value) (verdict : Verdict) :
    JudgeResult Value where
  submissionId := submissionId
  status := .COMPLETED
  result := some verdict
  score := tally.totalScore
  timeMs := (runMetricsFromCases tally.cases).1
  memoryKb := (runMetricsFromCases tally.cases).2
  compileTimeMs := tally.compileTimeMs
  compileMemoryKb := tally.compileMemoryKb
  compileOutput := none
  compileError := false
  cases := tally.cases
  error := none
  wallTimeMs := 0

namespace SpecialJudgeMode

def checkerCompileLimits : JudgeLimits :=
  ⟨.int 60000, .int 120000, .int (1024 * 1024 * 1024), 256, some (64 * 1024 * 1024)⟩

/-- The compiler's own output is preferred over the sandbox's message. -/
def compileFailureText (program : Prepared) : String :=
  let text := match program.compileResult with
    | some (compilerOutput, message) => String.ofList (strip (orText compilerOutput message).toList)
    | none => ""
  let message := match program.compile with
    | some compile => compile.message
    | none => ""
  orText text (orText message "compile failed")

/-- The programs and clients one submission is judged with. -/
structure Session where
  client : Nat
  checkerClient : Nat
  program : Prepared
  checkerProgram : Prepared
  checkerSource : Value

/-- `expected_ref or DataRef.from_data("")`. -/
def expectedOrEmpty : Option LoadedRef → Judging LoadedRef
  | some ref => pure ref
  | none => call (.refFromData (.str ""))

/-- One round of the loop over the test cases. -/
def judgeCase (session : Session) (problem : Value) (points : ℚ) (tally : Tally) (tc : Value) :
    Judging Tally := do
  let inputRef ← resolveInputRef tc
  let expectedRef ← resolveOutputRef tc
  let limits ← buildJudgeLimits tc problem
  let userResult : RunResult ← call (.runProgram session.program.id inputRef limits)
  let actualRef : LoadedRef ← call (.refFromPath userResult.stdoutPath)
  let answerRef ← expectedOrEmpty expectedRef
  let accepted : Bool ← call (.runTestlibChecker
    ⟨session.client, session.checkerSource, inputRef, actualRef, answerRef,
      session.checkerProgram.id⟩)
  let caseAC := userResult.status = .AC ∧ accepted
  let caseNo ← tc.item "case_no"
  let stdoutRef : LoadedRef ← call (.refFromPath userResult.stdoutPath)
  let stderrRef : LoadedRef ← call (.refFromPath userResult.stderrPath)
  return tally.addRun points
    ⟨caseNo, if caseAC then .AC else .WA, reportedRunTimeMs userResult.run,
      userResult.run.memoryBytes / 1024, .float 0, stdoutRef.previewText, stderrRef.previewText⟩

def judge (payload : Value) : Judging (JudgeResult Value) := do
  let submissionId ← payload.item "submission_id"
  let problem ← payload.item "problem"
  let languageCfg ← payload.item "language"
  let source ← payload.item "source"
  let spjCfg ← payload.get "spj" (.dict [])
  let testCasesData ← payload.item "test_cases"
  let checkerSource ← spjCfg.get "source" .none
  if !checkerSource.truthy then
    return errorVerdict submissionId "缺少 SPJ checker 源码"
  let language ← buildLanguagesConfig languageCfg "main"
  let languageKey ← languageCfg.item "key"
  let checkerKey : Value ← call .testlibCheckerKey
  call (.languagesConfig .testlibChecker)
  call .isolationConfig
  call .cgroupConfig
  let client : Nat ← call (.createClient language)
  let checkerClient : Nat ← call (.createClient .testlibChecker)
  let closeClients : Judging Unit := do
    call (.closeClient client)
    call (.closeClient checkerClient)
  let program : Prepared ← Program.onRaise
    (call (.prepareSource ⟨client, languageKey, source, none, none, []⟩)) closeClients
  let closeProgram : Judging Unit := do
    call (.closeProgram program.id)
    closeClients
  let (compileTimeMs, compileMemoryKb) := compileMetricsFromProcess program.compile
  if !program.compiled then
    closeProgram
    return errorVerdict submissionId ("用户程序编译失败: " ++ compileFailureText program)
  let checkerProgram : Prepared ← Program.onRaise (do
      let header : String ← call .testlibHeader
      call (.prepareSource ⟨checkerClient, checkerKey, checkerSource, none,
        some checkerCompileLimits, [("testlib.h", header)]⟩))
    closeProgram
  let closeAll : Judging Unit := do
    call (.closeProgram checkerProgram.id)
    closeProgram
  if !checkerProgram.compiled then
    closeAll
    return errorVerdict submissionId
      ("SPJ checker 编译失败: " ++ compileFailureText checkerProgram)
  let session : Session := ⟨client, checkerClient, program, checkerProgram, checkerSource⟩
  let tally ← Program.tryFinally (do
      let tests ← testCasesData.elements
      let points ← perCasePoints problem tests
      tests.foldlM (judgeCase session problem points) (.start compileTimeMs compileMemoryKb))
    closeAll
  return tally.result submissionId (if tally.allAC then .AC else .WA)

end SpecialJudgeMode

end AcojWorker
