import AcojWorker.Effect.Program
import AcojWorker.Judge.Checker
import AcojWorker.Judge.ResultMapper

/-!
# The judge's external calls

Everything the judge does not compute itself: the sandbox, the storage behind test data,
the working directory of an interactive case, the clock and the settings. A judging
program is a tree of these calls, and each of them may be answered by an exception.

Clients, programs and file descriptors are the numbers the outside hands out. Isolation
and resource-group settings come from the configuration alone, so only the fact that they
are read is recorded.
-/

namespace AcojWorker

open Python

/-- Limits of one execution, with the values as they were computed from the request. -/
structure JudgeLimits where
  cpuTimeMs : Value
  realTimeMs : Value
  memoryBytes : Value
  processes : Int
  outputBytes : Option Int

structure CommandSpec where
  argv : List String
  env : List String
  seccomp : Option String
  memoryLimitCheckOnly : Bool
  limits : Option JudgeLimits

/-- How the sandbox compiles and runs the programs of one language. -/
inductive LanguageSpec where
  | spec (id sourceFilename : Value) (exeFilename : String) (compile run : CommandSpec)
  | compiled (id : Value) (exeFilename : String) (compileArgv runArgv : List String)
      (compileLimits : JudgeLimits)
  | script (id : Value) (argv : List String)
  | testlibChecker

/-- A reference to data, with the digest and the preview the sandbox computed for it. -/
structure LoadedRef extends DataRef where
  sha256 : String
  previewText : String

/-- Measurements of a process that was compiled or run. -/
structure ProcessResult where
  status : Status
  cpuTimeMs : Int
  realTimeMs : Int
  memoryBytes : Int
  exitCode : Int
  message : String

structure JudgeCase where
  caseId : String
  input : LoadedRef
  expectedOutput : Option LoadedRef
  limits : JudgeLimits

structure RunCases where
  client : Nat
  language : Value
  source : Value
  cases : List JudgeCase
  stopOnFirstFailure : Bool
  parallelism : Int

/-- The sandbox's answer for one case, with the files as they are when it is examined. -/
structure CaseAnswer where
  status : Status
  actualOutput : LoadedRef
  expectedOutput : Option LoadedRef
  run : ProcessResult
  stderrPreview : String
  files : Files

structure BatchAnswer where
  id : Nat
  compile : ProcessResult
  message : String
  cases : List CaseAnswer

structure PrepareSource where
  client : Nat
  language : Value
  source : Value
  workspace : Option String
  limits : Option JudgeLimits
  extraFiles : List (String × String)

structure Prepared where
  id : Nat
  compiled : Bool
  compile : Option ProcessResult
  compileResult : Option (String × String)

/-- A run whose output stayed in files. -/
structure RunResult where
  status : Status
  run : ProcessResult
  stdoutPath : String
  stderrPath : String
  stdout : String

structure TestlibCheck where
  client : Nat
  checkerSource : Value
  input : LoadedRef
  actualOutput : LoadedRef
  expectedOutput : LoadedRef
  preparedChecker : Nat

/-- The two programs of an interactive case and how they are run. -/
structure RunBoth where
  userProgram : Option Nat
  interactorProgram : Nat
  workDir : String
  caseLimits : JudgeLimits
  interactorLimits : Except Exc JudgeLimits

/-- When a future completes, in seconds from the start of the first wait, and with what:
`none` for the time if it never does. -/
structure Completion where
  finish : Option ℚ
  result : Option RunResult

/-- The two runs of an interactive case as the waiting thread meets them. The thread comes
back from a wait, or looks at the futures after its deadline, a little later than asked.
Limits the sandbox rejects end the interactor's thread with an exception. -/
structure Race where
  user : Completion
  interactor : Completion
  limitsError : Option Exc
  firstLag : ℚ
  secondLag : ℚ
  firstLag_nonneg : 0 ≤ firstLag
  secondLag_nonneg : 0 ≤ secondLag

/-- A race may go without lags. -/
theorem Race.noLag : (0 : ℚ) ≤ 0 := Rat.le_refl

inductive SandboxOp where
  | monotonic
  | shlexSplit (command : String)
  | judgeLimits (limits : JudgeLimits)
  | languagesConfig (spec : LanguageSpec)
  | testlibCheckerKey
  | testlibHeader
  | isolationConfig
  | cgroupConfig
  | standardParallelism
  | resolveFile (objectName sha256 : Value)
  | pathExists (path : String)
  | refFromPath (path : String)
  | refFromData (data : Value)
  | createClient (language : LanguageSpec)
  | closeClient (client : Nat)
  | runCases (request : RunCases)
  | closeBatch (batch : Nat)
  | prepareSource (request : PrepareSource)
  | closeProgram (program : Nat)
  | runProgram (program : Nat) (input : LoadedRef) (limits : JudgeLimits)
  | runTestlibChecker (request : TestlibCheck)
  | mkdtemp
  | copyFile (source target : String)
  | writeBytes (path : String) (data : Bytes)
  | writeText (path text : String)
  | mkfifo (path : String)
  | openFifo (path : String)
  | closeFd (fd : Nat)
  | runBoth (request : RunBoth)
  | readText (path : String)
  | rmtree (path : String)

/-- The type of each answer. -/
abbrev SandboxOp.Answer : SandboxOp → Type
  | monotonic => ℚ
  | shlexSplit _ => List String
  | standardParallelism => Int
  | testlibCheckerKey => Value
  | testlibHeader => String
  | resolveFile .. => Option String
  | pathExists _ => Bool
  | refFromPath _ | refFromData _ => LoadedRef
  | createClient _ => Nat
  | runCases _ => BatchAnswer
  | prepareSource _ => Prepared
  | runProgram .. => RunResult
  | runTestlibChecker _ => Bool
  | mkdtemp => String
  | openFifo _ => Nat
  | runBoth _ => Race
  | readText _ => String
  | _ => Unit

abbrev Sandbox : Effect.Signature where
  Op := SandboxOp
  Res := SandboxOp.Answer

/-- A judging program. -/
abbrev Judging (α : Type) : Type := Effect.Program Sandbox Exc α

/-- Any behaviour of everything outside the judge. -/
abbrev World (σ : Type) : Type := Effect.Handler Sandbox Exc σ

/-- One external call. -/
def call (op : SandboxOp) : Judging op.Answer := Effect.Program.perform (S := Sandbox) op

/-- A step without external calls that succeeded is remembered. -/
theorem ensures_read {σ α β : Type} {h : World σ} {r : Except Exc β} {f : β → Judging α}
    {Q : α → Prop} (hf : ∀ b, r = .ok b → (f b).Ensures h Q) :
    ((liftM r : Judging β) >>= f).Ensures h Q :=
  Effect.Program.ensures_bind (Effect.Program.ensures_lift fun _ hb => hb) hf

/-- Fixed answers to the calls that decide a result. -/
structure Script where
  batch : BatchAnswer
  prepared : Prepared
  run : RunResult
  accepted : Bool
  race : Race

/-- A world without failures in which every call is always answered the same way. -/
def Script.answer (script : Script) : (op : SandboxOp) → op.Answer
  | .monotonic => (0 : ℚ)
  | .shlexSplit command => [command]
  | .judgeLimits _ => ()
  | .languagesConfig _ => ()
  | .testlibCheckerKey => Value.str "testlib"
  | .testlibHeader => ""
  | .isolationConfig => ()
  | .cgroupConfig => ()
  | .standardParallelism => (1 : Int)
  | .resolveFile .. => none
  | .pathExists _ => false
  | .refFromPath path => ⟨⟨some path, .none⟩, "", ""⟩
  | .refFromData _ => ⟨⟨none, .str ""⟩, "", ""⟩
  | .createClient _ => (0 : Nat)
  | .closeClient _ => ()
  | .runCases _ => script.batch
  | .closeBatch _ => ()
  | .prepareSource _ => script.prepared
  | .closeProgram _ => ()
  | .runProgram .. => script.run
  | .runTestlibChecker _ => script.accepted
  | .mkdtemp => "/tmp/case"
  | .copyFile .. => ()
  | .writeBytes .. => ()
  | .writeText .. => ()
  | .mkfifo _ => ()
  | .openFifo _ => (0 : Nat)
  | .closeFd _ => ()
  | .runBoth _ => script.race
  | .readText _ => ""
  | .rmtree _ => ()

def Script.world (script : Script) : World Unit := fun op s => (.ok (script.answer op), s)

end AcojWorker
