import AcojWorker.Judge.Orchestrator
import AcojWorker.Python.Schema

/-!
# The judge task

A request is validated against the declared models and then judged as it was sent; the
result is validated before it is returned. The models are those of the message protocol:
which fields a request may or must have, their types and their defaults.
-/

namespace AcojWorker

open Python Effect

section Schemas

variable (lax : Lax)

def strField (name : String) (default : Option String) : Field where
  name := name
  check := Check.str
  default := default.map .str
  stable := Check.str_stable
  default_ok := by
    intro v hv
    obtain ⟨s, _, rfl⟩ := Option.map_eq_some_iff.mp hv
    rfl

/-- A field that may be null, and is null when it is absent. -/
def optionalField (name : String) (check : Check) (stable : check.Stable) : Field where
  name := name
  check := Check.optional check
  default := some .none
  stable := Check.optional_stable stable
  default_ok := by
    rintro v ⟨⟩
    rfl

def intField (name : String) : Field where
  name := name
  check := Check.int lax
  default := none
  stable := Check.int_stable lax
  default_ok := nofun

def floatField (name : String) (default : ℚ) : Field where
  name := name
  check := Check.float lax
  default := some (.float default)
  stable := Check.float_stable lax
  default_ok := by
    rintro v ⟨⟩
    rfl

def boolField (name : String) (default : Bool) : Field where
  name := name
  check := Check.bool lax
  default := some (.bool default)
  stable := Check.bool_stable lax
  default_ok := by
    rintro v ⟨⟩
    rfl

/-- A list field, empty when it is absent. -/
def listField (name : String) (check : Check) (stable : check.Stable) : Field where
  name := name
  check := Check.list check
  default := some (.list [])
  stable := Check.list_stable stable
  default_ok := by
    rintro v ⟨⟩
    rfl

def modelField (name : String) (check : Check) (stable : check.Stable) : Field where
  name := name
  check := check
  default := none
  stable := stable
  default_ok := nofun

def ProblemConfig : List Field :=
  [strField "code" none, intField lax "time_limit_ms", intField lax "memory_limit_kb",
    floatField lax "points" 100, boolField lax "partial" false]

def LanguageConfigIn : List Field :=
  [strField "key" none, strField "name" (some ""), strField "extension" (some ""),
    optionalField "compile_command" Check.str Check.str_stable,
    optionalField "run_command" Check.str Check.str_stable]

def TestCaseData : List Field :=
  [intField lax "case_no", floatField lax "points" 0,
    optionalField "time_limit_ms" (Check.int lax) (Check.int_stable lax),
    optionalField "memory_limit_kb" (Check.int lax) (Check.int_stable lax),
    strField "input_inline" (some ""), optionalField "output_inline" Check.str Check.str_stable,
    optionalField "input_file" Check.str Check.str_stable,
    optionalField "output_file" Check.str Check.str_stable,
    strField "input_sha256" (some ""), strField "output_sha256" (some ""),
    optionalField "batch_no" (Check.int lax) (Check.int_stable lax),
    listField "batch_depends" (Check.int lax) (Check.int_stable lax)]

theorem ProblemConfig_distinct : ((ProblemConfig lax).map Field.name).Nodup := by
  simp [ProblemConfig, strField, intField, floatField, boolField]

theorem LanguageConfigIn_distinct : (LanguageConfigIn.map Field.name).Nodup := by
  simp [LanguageConfigIn, strField, optionalField]

theorem TestCaseData_distinct : ((TestCaseData lax).map Field.name).Nodup := by
  simp [TestCaseData, strField, intField, floatField, optionalField, listField]

def JudgePayload : List Field :=
  [strField "submission_id" none, strField "judge_mode" (some "STANDARD"),
    modelField "problem" (Check.model (ProblemConfig lax))
      (Check.model_stable (ProblemConfig_distinct lax)),
    optionalField "language" (Check.model LanguageConfigIn)
      (Check.model_stable LanguageConfigIn_distinct),
    strField "source" (some ""),
    listField "test_cases" (Check.model (TestCaseData lax))
      (Check.model_stable (TestCaseData_distinct lax)),
    optionalField "spj" Check.dict Check.dict_stable,
    optionalField "interactor" Check.dict Check.dict_stable]

/-- `JudgePayload.model_validate`, with the validated request as its value. -/
def validatePayload : Check := Check.model (JudgePayload lax)

end Schemas

/-- What pydantic provides: lax coercion and the text of a validation error. -/
structure Pydantic extends Lax where
  errorText : Value → String

/-- `JudgeResultOut(submission_id=submission_id or "?", status="FAILED", error=error)`. -/
def failedResult (submissionId error : String) : JudgeResult ℚ where
  submissionId := .str (orText submissionId "?")
  status := .FAILED
  result := none
  score := 0
  timeMs := 0
  memoryKb := 0
  compileTimeMs := 0
  compileMemoryKb := 0
  compileOutput := none
  compileError := false
  cases := []
  error := some error
  wallTimeMs := 0

def invalidResult : Exc := ⟨.validationError, "validation error for JudgeResultOut"⟩

/-- One entry of `JudgeResultOut.cases`. -/
def validateCase (lax : Lax) (c : CaseResult Value) : Except Exc (CaseResult ℚ) :=
  match Check.int lax c.caseNo, Check.float lax c.points with
  | some caseNo, some (.float points) => .ok { c with caseNo := caseNo, points := points }
  | _, _ => .error invalidResult

/-- `JudgeResultOut.model_validate(result).model_dump()`. -/
def validateResult (lax : Lax) (r : JudgeResult Value) : Except Exc (JudgeResult ℚ) := do
  match r.submissionId with
  | .str _ => pure ()
  | _ => .error invalidResult
  let cases ← r.cases.mapM (validateCase lax)
  return { r with cases := cases }

/-- `str(payload.get("submission_id") or "?")`. -/
def submissionIdText : Value → String
  | .dict fields => (((fields.lookup "submission_id").getD .none).orElse (.str "?")).display
  | _ => "?"

def executeJudge (pydantic : Pydantic) (payload : Value) : Judging (JudgeResult ℚ) :=
  match validatePayload pydantic.toLax payload with
  | none => pure (failedResult (submissionIdText payload)
      ("invalid payload: " ++ pydantic.errorText payload))
  | some _ => do
      let result ← judge payload
      validateResult pydantic.toLax result

end AcojWorker
