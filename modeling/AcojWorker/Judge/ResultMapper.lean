import AcojWorker.Python.Value

/-!
# Judge results and their mapping from sandbox states

The sandbox reports how a run ended; comparing outputs is the worker's business, so a
wrong answer exists only among the worker's own results.
-/

namespace AcojWorker

open Python

/-- How the sandbox says a compilation or a run ended. -/
inductive Status where
  | AC | CE | RE | TLE | MLE | OLE | SE | IE
  | other (name : String)
deriving DecidableEq, Repr

/-- The result of one test case or of a whole submission. -/
inductive Verdict where
  | AC | WA | CE | RE | TLE | MLE | OLE | SE | IE | SKIPPED
deriving DecidableEq, Repr

/-- One entry of `cases`. The points keep the type of the test case they were read from:
a number, or a raw value of the request. -/
structure CaseResult (π : Type) where
  caseNo : Value
  result : Verdict
  timeMs : Int
  memoryKb : Int
  points : π
  stdoutPreview : String
  stderrPreview : String

def toOjResult : Status → Verdict
  | .AC => .AC
  | .CE => .CE
  | .RE => .RE
  | .TLE => .TLE
  | .MLE => .MLE
  | .OLE => .OLE
  | .SE => .SE
  | .IE => .IE
  | .other _ => .IE

/-- The first result that is neither accepted nor skipped decides. -/
def computeOverallResult {π : Type} (hasCompileError : Bool) (cases : List (CaseResult π)) :
    Verdict :=
  if hasCompileError then .CE
  else match cases.find? (fun c => c.result ≠ .AC ∧ c.result ≠ .SKIPPED) with
    | some c => c.result
    | none => .AC

@[simp] theorem toOjResult_eq_AC {s : Status} : toOjResult s = .AC ↔ s = .AC := by
  cases s <;> simp [toOjResult]

theorem toOjResult_ne_SKIPPED (s : Status) : toOjResult s ≠ .SKIPPED := by
  cases s <;> simp [toOjResult]

end AcojWorker
