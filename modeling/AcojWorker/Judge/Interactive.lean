import AcojWorker.Judge.SpecialJudge

/-!
# The INTERACTIVE mode

For every case the user's program and the interactor run at the same time, connected by
two FIFOs that the judge keeps open. The judge waits for the first of them, and then once
more for the other one; what has not completed by then is given up.
-/

namespace AcojWorker

open Python Effect

/-- Whether a future has completed when the waiting thread looks at it. -/
def Completion.doneBy (c : Completion) (t : ℚ) : Bool :=
  match c.finish with
  | some finish => finish ≤ t
  | none => false

namespace InteractiveMode

/-! ### Waiting for the two runs -/

/-- `max((problem["time_limit_ms"] * 5) / 1000.0, 10)`. -/
def timeoutSeconds (problem : Value) : Except Exc ℚ := do
  let limit ← (← (← problem.item "time_limit_ms").mulInt 5).number
  return max (limit / 1000) 10

/-- The instant at which the first wait returns: at the first completion, or at the
timeout. -/
def firstReturn (timeout : ℚ) (race : Race) : ℚ :=
  let first := match race.user.finish, race.interactor.finish with
    | some u, some i => min u i
    | some u, none => u
    | none, some i => i
    | none, none => timeout
  min first timeout + race.firstLag

/-- The FIFOs are released once the interactor is done or the user's program has failed. -/
def shouldReleaseFifos (t : ℚ) (race : Race) : Bool :=
  (race.user.doneBy t &&
    race.user.result.any fun result => result.status ≠ .AC) ||
  race.interactor.doneBy t

/-- The instant of the second look: a second later when the FIFOs have been released, the
whole timeout later otherwise. -/
def secondLook (timeout : ℚ) (race : Race) : ℚ :=
  let t := firstReturn timeout race
  t + (if shouldReleaseFifos t race then 1 else timeout) + race.secondLag

/-- The instant of the last look: the second one, unless both runs were collected by the
first. -/
def lastLook (timeout : ℚ) (race : Race) : ℚ :=
  let t := firstReturn timeout race
  if race.user.doneBy t && race.interactor.doneBy t then t else secondLook timeout race

/-- The result of a future if the judge still collected it. -/
def collected (timeout : ℚ) (race : Race) (c : Completion) : Option RunResult :=
  if c.doneBy (lastLook timeout race) then c.result else none

/-- User failure before interactor failure before wrong answer before accepted. -/
def caseStatus : Option RunResult → Option RunResult → Verdict
  | some user, some interactor =>
      if user.status ≠ .AC then toOjResult user.status
      else if interactor.status ≠ .AC then toOjResult interactor.status
      else if interactor.run.exitCode ≠ 0 then .WA
      else .AC
  | _, _ => .SE

/-- Without a program of the user there is nothing to run: its thread returns at once. -/
def observed (request : RunBoth) (race : Race) : Race :=
  match request.userProgram with
  | some _ => race
  | none => { race with user := { race.user with result := none } }

/-! ### The resources of a case -/

/-- What the clean-up of a case has to release. -/
structure Resources where
  fdAB : Option Nat
  fdBA : Option Nat
  interactorProgram : Option Nat
  userProgram : Option Nat
  userClient : Option Nat
  interactorClient : Nat
  workDir : String

def release (res : Resources) : Judging Unit := do
  if let some fd := res.fdAB then call (.closeFd fd)
  if let some fd := res.fdBA then call (.closeFd fd)
  if let some program := res.interactorProgram then call (.closeProgram program)
  if let some program := res.userProgram then call (.closeProgram program)
  if let some client := res.userClient then call (.closeClient client)
  call (.closeClient res.interactorClient)
  call (.rmtree res.workDir)

/-- A step inside the guarded block of a case: its exception releases the resources held. -/
def guarded {α : Type} (res : Resources) (p : Judging α) : Judging α := p.onRaise (release res)

theorem ensures_guarded {σ α : Type} {h : World σ} {res : Resources} {p : Judging α}
    {Q : α → Prop} (hp : p.Ensures h Q) : (guarded res p).Ensures h Q :=
  Program.ensures_onRaise hp

def closeFd (res : Resources) : Option Nat → Judging Unit
  | some fd => guarded res (call (.closeFd fd))
  | none => pure ()

/-- `os.close` both FIFO descriptors that are still open. -/
def closeFifos (res : Resources) : Judging Resources := do
  closeFd res res.fdAB
  closeFd { res with fdAB := none } res.fdBA
  return { res with fdAB := none, fdBA := none }

/-! ### One case -/

/-- What stays the same from case to case. -/
structure Setting where
  problem : Value
  interactorCfg : Value
  source : Value
  languages : Option LanguageSpec
  languageKey : Value
  interactorLanguages : LanguageSpec
  interactorKey : Value

def unrunCase (caseNo : Value) (verdict : Verdict) (message : String) : CaseResult Value :=
  ⟨caseNo, verdict, 0, 0, .float 0, "", message⟩

def interactorLimits (problem interactorCfg : Value) : Except Exc JudgeLimits := do
  let declared ← interactorCfg.get "time_limit_ms" .none
  let cpuMs ← if declared.truthy then pure declared
    else do (← problem.item "time_limit_ms").mulInt 2
  let realMs ← cpuMs.mulInt 2
  let memoryBytes ← (← caseOrProblem interactorCfg problem "memory_limit_kb").mulInt 1024
  return ⟨cpuMs, realMs, memoryBytes, 256, none⟩

/-- The limits of the interactor are computed in its thread; an exception there surfaces
with the result of its future. -/
def interactorOutcome (request : RunBoth) (race : Race) : Except Exc (Option RunResult) := do
  let _ ← request.interactorLimits
  match race.limitsError with
  | some e => .error e
  | none => return race.interactor.result

/-- The input of a case as a file in its working directory. -/
def writeInput (inputRef : LoadedRef) (inputFile : String) : Judging Unit :=
  match inputRef.path, inputRef.data with
  | some path, data =>
      if path ≠ "" then call (.copyFile path inputFile)
      else writeData data
  | none, data => writeData data
where
  writeData : Data → Judging Unit
    | .bytes data => call (.writeBytes inputFile data)
    | .str text => call (.writeText inputFile text)
    | .none => call (.writeText inputFile "")

def errorMessage (program : Prepared) : Except Exc String :=
  match program.compile with
  | some compile => .ok compile.message
  | none => .error ⟨.attributeError, "'NoneType' object has no attribute 'message'"⟩

/-- `holder[futures[future]] = future.result()` for the interactor, if it is done. -/
def collectInteractor (request : RunBoth) (race : Race) (res : Resources) (t : ℚ) :
    Judging Unit :=
  if race.interactor.doneBy t then do
    let _ ← guarded res (liftM (interactorOutcome request race))
    return ()
  else pure ()

/-- The first wait, and the release of the FIFOs it may lead to. -/
def firstWait (request : RunBoth) (race : Race) (timeout : ℚ) (res : Resources) :
    Judging Resources := do
  let t := firstReturn timeout race
  collectInteractor request race res t
  if shouldReleaseFifos t race then closeFifos res else pure res

/-- The second wait, for what is pending; a run that is given up has its FIFOs closed. -/
def secondWait (request : RunBoth) (race : Race) (tc : Value) (timeout : ℚ) (res : Resources) :
    Judging Resources := do
  let t := lastLook timeout race
  collectInteractor request race res t
  if race.user.doneBy t && race.interactor.doneBy t then return res
  let _ ← guarded res (liftM (tc.item "case_no"))
  closeFifos res

/-- The first characters of the interactor's standard error. -/
def readStderr (workDir : String) : Judging String := do
  let found : Bool ← call (.pathExists (workDir ++ "/interactor.stderr"))
  if found then
    let text : String ← call (.readText (workDir ++ "/interactor.stderr"))
    return String.ofList (text.toList.take 4096)
  else
    return ""

def caseEntry (caseNo : Value) (user interactor : Option RunResult) (stderrText : String) :
    CaseResult Value where
  caseNo := caseNo
  result := caseStatus user interactor
  timeMs := (user.map fun r => reportedRunTimeMs r.run).getD 0
  memoryKb := (user.map fun r => r.run.memoryBytes / 1024).getD 0
  points := .float 0
  stdoutPreview := (user.map fun r => String.ofList (r.stdout.toList.take 2048)).getD ""
  stderrPreview := stderrText

/-- Both runs, from the start of the two threads to the result of the case. -/
def runPrograms (problem tc : Value) (res : Resources) (request : RunBoth) :
    Judging (CaseResult Value) := do
  let timeout ← guarded res (liftM (timeoutSeconds problem))
  let answer : Race ← guarded res (call (.runBoth request))
  let race := observed request answer
  let res ← firstWait request race timeout res
  let res ← secondWait request race tc timeout res
  let stderrText ← guarded res (readStderr request.workDir)
  let caseNo ← guarded res (liftM (tc.item "case_no"))
  release res
  return caseEntry caseNo (collected timeout race race.user)
    (collected timeout race race.interactor) stderrText

/-- A program that did not compile settles the case. -/
def settleUnrun (tc : Value) (res : Resources) (program : Prepared) (verdict : Verdict)
    (tally : Tally) : Judging Tally := do
  let caseNo ← guarded res (liftM (tc.item "case_no"))
  let message ← guarded res (liftM (errorMessage program))
  release res
  return tally.addFailed (unrunCase caseNo verdict message)

/-- The interactor is compiled in the working directory, then both programs run. -/
def runCase (setting : Setting) (tc : Value) (limits : JudgeLimits) (res : Resources)
    (tally : Tally) (points : ℚ) : Judging Tally := do
  let interactorSource ← guarded res (liftM (setting.interactorCfg.item "source"))
  let program : Prepared ← guarded res (call (.prepareSource
    ⟨res.interactorClient, setting.interactorKey, interactorSource, some res.workDir, none, []⟩))
  let res := { res with interactorProgram := some program.id }
  if program.compiled then
    let entry ← runPrograms setting.problem tc res
      ⟨res.userProgram, program.id, res.workDir, limits,
        interactorLimits setting.problem setting.interactorCfg⟩
    return tally.addRun points entry
  else
    settleUnrun tc res program .IE tally

/-- The user's program is compiled first, unless there is none. -/
def compileAndRun (setting : Setting) (tc : Value) (limits : JudgeLimits) (res : Resources)
    (tally : Tally) (points : ℚ) : Judging Tally := do
  match res.userClient with
  | some client =>
      if setting.source.truthy then
        let program : Prepared ← guarded res (call (.prepareSource
          ⟨client, setting.languageKey, setting.source, some res.workDir, none, []⟩))
        let res := { res with userProgram := some program.id }
        let (ct, cm) := compileMetricsFromProcess program.compile
        let tally := { tally with
          compileTimeMs := max tally.compileTimeMs ct
          compileMemoryKb := max tally.compileMemoryKb cm }
        if program.compiled then
          runCase setting tc limits res tally points
        else
          settleUnrun tc res program .CE tally
      else runCase setting tc limits res tally points
  | none => runCase setting tc limits res tally points

/-- Without a language there is no client for the user's program. -/
def createUserClient : Option LanguageSpec → Judging (Option Nat)
  | some languages => some <$> (call (.createClient languages) : Judging Nat)
  | none => pure none

/-- One round of the loop over the test cases. What is acquired before the programs are
compiled is not yet covered by the clean-up. -/
def judgeCase (setting : Setting) (points : ℚ) (tally : Tally) (tc : Value) : Judging Tally := do
  let inputRef ← resolveInputRef tc
  let limits ← caseLimits 5 tc setting.problem
  let workDir : String ← call .mkdtemp
  writeInput inputRef (workDir ++ "/input.txt")
  let fifoAB := workDir ++ "/user_to_interactor.fifo"
  let fifoBA := workDir ++ "/interactor_to_user.fifo"
  call (.mkfifo fifoAB)
  call (.mkfifo fifoBA)
  let fdAB : Nat ← call (.openFifo fifoAB)
  let fdBA : Nat ← call (.openFifo fifoBA)
  let userClient ← createUserClient setting.languages
  let interactorClient : Nat ← call (.createClient setting.interactorLanguages)
  compileAndRun setting tc limits
    ⟨some fdAB, some fdBA, none, none, userClient, interactorClient, workDir⟩ tally points

/-- The first case that is not accepted gives the result. -/
def overallResult (tally : Tally) : Verdict :=
  if tally.allAC then .AC
  else match tally.cases.find? (fun c => c.result ≠ .AC ∧ c.result ≠ .SKIPPED) with
    | some c => c.result
    | none => .WA

def userLanguages (languageCfg : Value) : Judging (Option LanguageSpec) :=
  if languageCfg.truthy then some <$> buildLanguagesConfig languageCfg "main" else pure none

def userLanguageKey (languageCfg : Value) : Except Exc Value :=
  if languageCfg.truthy then languageCfg.item "key" else pure .none

def judge (payload : Value) : Judging (JudgeResult Value) := do
  let submissionId ← payload.item "submission_id"
  let problem ← payload.item "problem"
  let interactorCfg ← payload.get "interactor" (.dict [])
  let source ← payload.item "source"
  let testCasesData ← payload.item "test_cases"
  let languageCfg ← payload.get "language" .none
  let interactorSource ← interactorCfg.get "source" .none
  if !interactorSource.truthy then
    return errorVerdict submissionId "缺少交互器源码"
  let languages ← userLanguages languageCfg
  let languageKey ← userLanguageKey languageCfg
  let interactorLanguage ← interactorCfg.item "language"
  let interactorLanguages ← buildLanguagesConfig interactorLanguage "interactor"
  let interactorKey ← interactorLanguage.item "key"
  call .isolationConfig
  call .cgroupConfig
  let tests ← testCasesData.elements
  let points ← perCasePoints problem tests
  let setting : Setting :=
    ⟨problem, interactorCfg, source, languages, languageKey, interactorLanguages, interactorKey⟩
  let tally ← tests.foldlM (judgeCase setting points) (.start 0 0)
  return tally.result submissionId (overallResult tally)

end InteractiveMode

end AcojWorker
