import AcojWorker.Judge.Interactive
import AcojWorker.Judge.Standard

/-!
# Dispatching a request to its judging mode

An exception of a mode becomes a failed result; only the clock is read outside of the
guarded block.
-/

namespace AcojWorker

open Python Effect

/-- `MODE_REGISTRY.get(judge_mode, MODE_REGISTRY["STANDARD"])`. -/
def modeOf (judgeMode : Value) : Except Exc (Value → Judging (JudgeResult Value)) :=
  match judgeMode with
  | .str "SPECIAL_JUDGE" => .ok SpecialJudgeMode.judge
  | .str "INTERACTIVE" => .ok InteractiveMode.judge
  | .list _ => .error ⟨.typeError, "unhashable type: 'list'"⟩
  | .dict _ => .error ⟨.typeError, "unhashable type: 'dict'"⟩
  | _ => .ok StandardMode.judge

theorem modeOf_cases {judgeMode : Value} {mode : Value → Judging (JudgeResult Value)}
    (dispatched : modeOf judgeMode = .ok mode) :
    mode = StandardMode.judge ∨ mode = SpecialJudgeMode.judge ∨ mode = InteractiveMode.judge := by
  rw [modeOf.eq_def] at dispatched
  split at dispatched
  · exact .inr (.inl (Except.ok.inj dispatched).symm)
  · exact .inr (.inr (Except.ok.inj dispatched).symm)
  · cases dispatched
  · cases dispatched
  · exact .inl (Except.ok.inj dispatched).symm

/-- Elapsed seconds in whole milliseconds. -/
def elapsedMs (start now : ℚ) : Int := Value.truncate ((now - start) * 1000)

def buildFailedResult (payload : Value) (exc : Exc) (start : ℚ) :
    Judging (JudgeResult Value) := do
  let submissionId ← payload.get "submission_id" (.str "?")
  let now : ℚ ← call .monotonic
  return {
    submissionId := submissionId
    status := .FAILED
    result := none
    score := 0
    timeMs := 0
    memoryKb := 0
    compileTimeMs := 0
    compileMemoryKb := 0
    compileOutput := none
    compileError := false
    cases := []
    error := some exc.message
    wallTimeMs := elapsedMs start now }

def judge (payload : Value) : Judging (JudgeResult Value) := do
  let judgeMode ← payload.get "judge_mode" (.str "STANDARD")
  let _ ← payload.get "submission_id" (.str "?")
  let start : ℚ ← call .monotonic
  let result ← Program.tryCatch
    (do
      let mode ← (liftM (modeOf judgeMode) : Judging _)
      mode payload)
    (fun exc => buildFailedResult payload exc start)
  let now : ℚ ← call .monotonic
  return { result with wallTimeMs := elapsedMs start now }

end AcojWorker
