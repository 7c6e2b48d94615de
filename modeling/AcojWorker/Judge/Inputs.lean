import AcojWorker.Judge.Result

/-!
# What a judging mode builds from a request

Test data references, execution limits, sandbox cases and language configurations. All of
them read the request as it was sent: a missing key, or a value of an unexpected type,
raises where it is used.
-/

namespace AcojWorker

open Python

/-! ### Test data -/

/-- A file of the storage, checked against the digest the test case declares for it. -/
def resolveFileRef (kind : String) (file sha256 : Value) : Judging LoadedRef := do
  let path : Option String ← call (.resolveFile file sha256)
  let found : Bool ← match path with
    | some path => call (.pathExists path)
    | none => pure false
  if found then
    let ref : LoadedRef ← call (.refFromPath (path.getD ""))
    if sha256.truthy && ref.sha256 != "" && !sha256.isText ref.sha256 then
      .raise ⟨.runtimeError, "测试数据文件 hash 不匹配: " ++ file.display⟩
    else
      return ref
  else
    .raise ⟨.runtimeError, "测试数据" ++ kind ++ "文件不存在或无法下载: " ++ file.display⟩

def resolveInputRef (testCase : Value) : Judging LoadedRef := do
  let inputFile := (← testCase.get "input_file" .none).orElse (.str "")
  let expectedSha256 := (← testCase.get "input_sha256" .none).orElse (.str "")
  if inputFile.truthy then
    resolveFileRef "输入" inputFile expectedSha256
  else
    call (.refFromData (← testCase.get "input_inline" (.str "")))

def resolveOutputRef (testCase : Value) : Judging (Option LoadedRef) := do
  let outputFile := (← testCase.get "output_file" .none).orElse (.str "")
  let expectedSha256 := (← testCase.get "output_sha256" .none).orElse (.str "")
  if outputFile.truthy then
    return some (← resolveFileRef "输出" outputFile expectedSha256)
  else
    match ← testCase.get "output_inline" .none with
    | .none => return none
    | outputInline => return some (← call (.refFromData outputInline))

/-! ### Limits and cases -/

/-- `tc.get(name) or problem[name]`. -/
def caseOrProblem (tc problem : Value) (name : String) : Except Exc Value := do
  let declared ← tc.get name .none
  if declared.truthy then return declared
  problem.item name

/-- `tc.get(…) or problem.get(…) or 8 MiB`, as a number of bytes. -/
def outputLimitBytes (tc problem : Value) : Except Exc Int := do
  let declared ← tc.get "output_limit_bytes" .none
  if declared.truthy then declared.asInt
  else
    let outputBytes ← problem.get "output_limit_bytes" .none
    (outputBytes.orElse (.int (8 * 1024 * 1024))).asInt

/-- The limits of a case, with the factor from CPU time to real time. -/
def caseLimits (realFactor : Int) (tc problem : Value) : Judging JudgeLimits := do
  let cpuMs ← caseOrProblem tc problem "time_limit_ms"
  let realMs ← cpuMs.mulInt realFactor
  let memoryBytes ← (← caseOrProblem tc problem "memory_limit_kb").mulInt 1024
  let outputBytes ← outputLimitBytes tc problem
  let limits : JudgeLimits := ⟨cpuMs, realMs, memoryBytes, 256, some outputBytes⟩
  call (.judgeLimits limits)
  return limits

def buildJudgeLimits (tc problem : Value) : Judging JudgeLimits := caseLimits 3 tc problem

def buildJudgeCase (problem tc : Value) : Judging JudgeCase := do
  let caseNo ← tc.item "case_no"
  let input ← resolveInputRef tc
  let expectedOutput ← resolveOutputRef tc
  let limits ← buildJudgeLimits tc problem
  return ⟨caseNo.display, input, expectedOutput, limits⟩

def buildJudgeCases (testCasesData : List Value) (problem : Value) : Judging (List JudgeCase) :=
  testCasesData.mapM (buildJudgeCase problem)

/-! ### Languages -/

/-- `(language_key or "").strip().lower()`. -/
def normalizedKey (languageKey : Value) : Except Exc String := do
  let key ← (languageKey.orElse (.str "")).text
  return (String.ofList (strip key.toList)).toLower

def needsVirtAs (languageKey : Value) : Except Exc Bool := do
  let key ← normalizedKey languageKey
  return key.startsWith "java" || key = "go" || key = "golang"

def defaultExeFilename (languageKey : Value) (exeFilename : String) : Except Exc String := do
  let key ← normalizedKey languageKey
  return if key.startsWith "java" then "Main" else exeFilename

def goEnv : List String :=
  ["GOCACHE=/tmp/go-cache", "GOPROXY=off", "GO111MODULE=off", "HOME=/tmp"]

def javaEnv : List String :=
  ["JAVA_HOME=/usr/lib/jvm/java-17-openjdk-amd64",
    "LD_LIBRARY_PATH=/usr/lib/jvm/java-17-openjdk-amd64/lib"]

def compileLimits : JudgeLimits :=
  ⟨.int 30000, .int 60000, .int (1024 * 1024 * 1024), 256, some (64 * 1024 * 1024)⟩

/-- Compiled languages of which the run-time systems need a large address space. -/
def virtAsSpec (language languageKey : Value) (exeName : String)
    (compileArgv runArgv : List String) : Except Exc LanguageSpec := do
  let key ← normalizedKey languageKey
  let isGo := key = "go" ∨ key = "golang"
  let isJava := key.startsWith "java"
  let sourceFilename ← language.get "source_filename" .none
  return .spec languageKey
    (sourceFilename.orElse (.str (if isJava then "Main.java" else "main.go"))) exeName
    ⟨compileArgv, if isGo then goEnv else if isJava then javaEnv else [], some "none", true,
      some compileLimits⟩
    ⟨runArgv, if isGo then [] else if isJava then javaEnv else [], some "none", true, none⟩

def buildLanguagesConfig (language : Value) (exeFilename : String) : Judging LanguageSpec := do
  let languageKey ← language.item "key"
  let compileCmd := (← language.get "compile_command" .none).orElse (.str "")
  let exeName ← defaultExeFilename languageKey exeFilename
  let compileCmd ← compileCmd.text
  let runCommand ← language.get "run_command" .none
  let spec ← if strip compileCmd.toList ≠ [] then do
      let compileArgv ← call (.shlexSplit compileCmd)
      let runArgv ← call (.shlexSplit (← (runCommand.orElse (.str "\x7bexe\x7d")).text))
      call (.judgeLimits compileLimits)
      if ← needsVirtAs languageKey then
        (liftM (virtAsSpec language languageKey exeName compileArgv runArgv) :
          Judging LanguageSpec)
      else
        pure (.compiled languageKey exeName compileArgv runArgv compileLimits)
    else do
      let runArgv ← call (.shlexSplit (← (runCommand.orElse (.str "")).text))
      pure (LanguageSpec.script languageKey runArgv)
  call (.languagesConfig spec)
  return spec

/-! ### The calls of the preparation -/

/-- The calls a request is prepared with. -/
def SandboxOp.PreparesRequest : SandboxOp → Prop
  | shlexSplit _ | judgeLimits _ | languagesConfig _ => True
  | resolveFile .. | pathExists _ | refFromPath _ | refFromData _ => True
  | _ => False

section Calls

open Effect

theorem resolveFileRef_calls (kind : String) (file sha256 : Value) :
    (resolveFileRef kind file sha256).Calls SandboxOp.PreparesRequest := by
  refine Program.calls_bind (Program.calls_perform trivial) fun path => ?_
  extract_lets whenFound
  have checked : ∀ found, (whenFound found).Calls SandboxOp.PreparesRequest := by
    intro found
    refine Program.calls_ite (fun _ => ?_) fun _ => trivial
    exact Program.calls_bind (Program.calls_perform trivial) fun ref =>
      Program.calls_ite (fun _ => trivial) fun _ => trivial
  split
  · exact Program.calls_bind (Program.calls_perform trivial) checked
  · exact checked false

theorem resolveInputRef_calls (tc : Value) : (resolveInputRef tc).Calls SandboxOp.PreparesRequest := by
  refine Program.calls_bind (Program.calls_lift _) fun inputFile =>
    Program.calls_bind (Program.calls_lift _) fun sha256 => Program.calls_ite (fun _ => ?_) fun _ => ?_
  · exact resolveFileRef_calls _ _ _
  · exact Program.calls_bind (Program.calls_lift _) fun _ => Program.calls_perform trivial

theorem resolveOutputRef_calls (tc : Value) : (resolveOutputRef tc).Calls SandboxOp.PreparesRequest := by
  refine Program.calls_bind (Program.calls_lift _) fun outputFile =>
    Program.calls_bind (Program.calls_lift _) fun sha256 => Program.calls_ite (fun _ => ?_) fun _ => ?_
  · exact Program.calls_bind (resolveFileRef_calls _ _ _) fun _ => trivial
  · refine Program.calls_bind (Program.calls_lift _) fun outputInline => ?_
    split
    · exact trivial
    · exact Program.calls_bind (Program.calls_perform trivial) fun _ => trivial

theorem caseLimits_calls (realFactor : Int) (tc problem : Value) :
    (caseLimits realFactor tc problem).Calls SandboxOp.PreparesRequest :=
  Program.calls_bind (Program.calls_lift _) fun _ => Program.calls_bind (Program.calls_lift _) fun _ =>
  Program.calls_bind (Program.calls_lift _) fun _ => Program.calls_bind (Program.calls_lift _) fun _ =>
  Program.calls_bind (Program.calls_lift _) fun _ => Program.calls_bind (Program.calls_perform trivial)
    fun _ => trivial

theorem buildJudgeCases_calls (tests : List Value) (problem : Value) :
    (buildJudgeCases tests problem).Calls SandboxOp.PreparesRequest := by
  refine Program.calls_mapM (fun tc => ?_) tests
  refine Program.calls_bind (Program.calls_lift _) fun caseNo => ?_
  refine Program.calls_bind (resolveInputRef_calls tc) fun input => ?_
  refine Program.calls_bind (resolveOutputRef_calls tc) fun output => ?_
  exact Program.calls_bind (caseLimits_calls 3 tc problem) fun limits => trivial

theorem buildLanguagesConfig_calls (language : Value) (exeFilename : String) :
    (buildLanguagesConfig language exeFilename).Calls SandboxOp.PreparesRequest := by
  refine Program.calls_bind (Program.calls_lift _) fun languageKey => ?_
  refine Program.calls_bind (Program.calls_lift _) fun compileCmd => ?_
  refine Program.calls_bind (Program.calls_lift _) fun exeName => ?_
  refine Program.calls_bind (Program.calls_lift _) fun compileCmd => ?_
  refine Program.calls_bind (Program.calls_lift _) fun runCommand => ?_
  extract_lets withSpec
  have made : ∀ spec, (withSpec spec).Calls SandboxOp.PreparesRequest := fun spec =>
    Program.calls_bind (Program.calls_perform trivial) fun _ => trivial
  refine Program.calls_ite (fun _ => ?_) fun _ => ?_
  · refine Program.calls_bind (Program.calls_perform trivial) fun compileArgv => ?_
    refine Program.calls_bind (Program.calls_lift _) fun runCommand => ?_
    refine Program.calls_bind (Program.calls_perform trivial) fun runArgv => ?_
    refine Program.calls_bind (Program.calls_perform trivial) fun _ => ?_
    refine Program.calls_bind (Program.calls_lift _) fun virtAs => ?_
    exact Program.calls_ite (fun _ => Program.calls_bind (Program.calls_lift _) made) fun _ =>
      made _
  · refine Program.calls_bind (Program.calls_lift _) fun runCommand => ?_
    exact Program.calls_bind (Program.calls_perform trivial) fun runArgv => made _

end Calls

end AcojWorker
