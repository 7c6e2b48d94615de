import AcojWorker.Judge.Sandbox

/-!
# Judge results

The record every judging mode returns, the results that report a failure, and the resource
figures of a result: the times of the cases are added up, their peak memory is the largest
one, and compiling is accounted for apart from running.
-/

namespace AcojWorker

open Python

inductive RunStatus where
  | COMPLETED
  | FAILED
deriving DecidableEq, Repr

structure JudgeResult (π : Type) where
  submissionId : Value
  status : RunStatus
  result : Option Verdict
  score : ℚ
  timeMs : Int
  memoryKb : Int
  compileTimeMs : Int
  compileMemoryKb : Int
  compileOutput : Option String
  compileError : Bool
  cases : List (CaseResult π)
  error : Option String
  wallTimeMs : Int

def errorVerdict {π : Type} (submissionId : Value) (msg : String) : JudgeResult π where
  submissionId := submissionId
  status := .FAILED
  result := none
  score := 0
  timeMs := 0
  memoryKb := 0
  compileTimeMs := 0
  compileMemoryKb := 0
  compileOutput := some msg
  compileError := false
  cases := []
  error := some msg
  wallTimeMs := 0

/-- `a or b` on texts. -/
def orText (a b : String) : String := if a = "" then b else a

/-- The points a skipped case is given are a number of the request's own kind. -/
instance : Zero Value := ⟨.float 0⟩

def runMetricsFromCases {π : Type} (cases : List (CaseResult π)) : Int × Int :=
  ((cases.map fun c => c.timeMs).sum,
    match cases with
    | [] => 0
    | c :: cs => cs.foldl (fun memoryKb c => max memoryKb c.memoryKb) c.memoryKb)

def compileMetricsFromProcess : Option ProcessResult → Int × Int
  | none => (0, 0)
  | some compile => (compile.cpuTimeMs, compile.memoryBytes / 1024)

/-- A run killed by the wall clock reports the time it took rather than its CPU time. -/
def reportedRunTimeMs (run : ProcessResult) : Int :=
  if run.status = .TLE ∨ run.message = "time limit exceeded" then max run.cpuTimeMs run.realTimeMs
  else run.cpuTimeMs

end AcojWorker
