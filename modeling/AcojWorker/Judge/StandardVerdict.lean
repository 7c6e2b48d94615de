import AcojWorker.Judge.BatchClosure
import AcojWorker.Judge.StandardResults
import AcojWorker.Judge.StandardRuns

/-!
# What an accepted STANDARD submission means

Two rules lead to an accepted result: reaching the points of the problem, and having no
failed case, where skipped cases do not count. Below the points of the problem a skipped
case can only be the work of batches that depend on each other in a circle, so otherwise
every case the sandbox ran is accepted.
-/

namespace AcojWorker.StandardMode

open Python Effect

/-! ### The loop over the sandbox's answers -/

/-- What the results so far say about the failure flag and about skipped cases. -/
structure Progress.Reflects (progress : Progress) (stopOnFirst : Bool)
    (answers : List CaseAnswer) : Prop where
  length : progress.results.length = answers.length
  failure : progress.hadFailure = true → ∃ c ∈ progress.results, c.result ≠ .AC ∧ c.result ≠ .SKIPPED
  skipped : ∀ c ∈ progress.results, c.result = .SKIPPED →
    stopOnFirst = true ∧ progress.hadFailure = true

variable {stopOnFirst hasBatch hasCe : Bool} {tests : List Value}

def ReachesPoints (problem : Value) (score : ℚ) : Prop :=
  ∃ points, (problem.item "points" >>= Value.number) = .ok points ∧ points ≤ score

/-- The batch a test case belongs to names another one. -/
def Names (tests : List Value) (b d : Key) : Prop :=
  ∃ tc ∈ tests, ∃ info, batchInfo tc = .ok info ∧ info.batchNo = some b ∧ d ∈ info.deps

def Acyclic (tests : List Value) : Prop := ∀ b, ¬ Relation.TransGen (Names tests) b b

variable {σ : Type} {h : World σ}

section OneProcess

/-- A request whose problem is worth `points`. -/
def requestWorth (points : ℚ) (partialScore : Bool) (tests : List Value) : Value :=
  .dict [
    ("submission_id", .str "s"),
    ("problem", .dict [("code", .str "p"), ("time_limit_ms", .int 1000),
      ("memory_limit_kb", .int 65536), ("points", .float points), ("partial", .bool partialScore)]),
    ("language", .dict [("key", .str "py"), ("run_command", .str "python3")]),
    ("source", .str "answer"),
    ("test_cases", .list tests)]

def finished : ProcessResult := ⟨.AC, 0, 0, 0, 0, ""⟩

/-- An accepted run that prints `output` where 1 is expected. -/
def printed (output : String) : CaseAnswer where
  status := .AC
  actualOutput := ⟨⟨none, .str output⟩, "", ""⟩
  expectedOutput := some ⟨⟨none, .str "1"⟩, "", ""⟩
  run := finished
  stderrPreview := ""
  files := fun _ => .missing

def scriptOf (cases : List CaseAnswer) : Script where
  batch := ⟨0, finished, "", cases⟩
  prepared := ⟨0, true, none, none⟩
  run := ⟨.AC, finished, "", "", ""⟩
  accepted := true
  race := ⟨⟨none, none⟩, ⟨none, none⟩, none, 0, 0, Race.noLag, Race.noLag⟩

/-- Every program prints `output`. -/
def printingWorld (output : String) : World Unit :=
  mapCases (fun request _ => request.cases.map fun _ => printed output) (scriptOf []).world

def freeCase : Value := .dict [("case_no", .int 1), ("points", .int 50)]

end OneProcess

end AcojWorker.StandardMode
