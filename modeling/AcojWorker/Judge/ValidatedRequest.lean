import AcojWorker.Effect.Lockstep
import AcojWorker.Judge.ValidatedInputs

/-!
# Requests and results before and after validation

The parts of a request a mode works on, each next to its validated form, and results that
are the same once they have been validated themselves.
-/

namespace AcojWorker

open Python Effect

variable {lax : Lax}

/-! ### The parts of a request -/

def testsOf (fields : List (String × Value)) : List Value :=
  match fields.lookup "test_cases" with
  | some (.list tests) => tests
  | _ => []

/-- A test case and its validated form. -/
def ValidCase (lax : Lax) (v w : Value) : Prop :=
  ∃ tc tc', v = .dict tc ∧ w = .dict tc' ∧ Filled (TestCaseData lax) tc tc'

section Request

variable {fields fields' : List (String × Value)}

theorem tests_validated (filled : Filled (JudgePayload lax) fields fields') :
    List.Forall₂ (ValidCase lax) (testsOf fields) (testsOf fields') ∧
      ∀ v, fields.lookup "test_cases" = some v →
        v = .list (testsOf fields) ∧
          fields'.lookup "test_cases" = some (.list (testsOf fields')) := by
  let tests := listField "test_cases" (Check.model (TestCaseData lax))
    (Check.model_stable (TestCaseData_distinct lax))
  have declared : tests ∈ JudgePayload lax := by simp [JudgePayload, tests]
  cases hv : fields.lookup "test_cases" with
  | none =>
      obtain ⟨w, ⟨⟩, hw⟩ := filled.lookup_of_absent declared hv
      change fields'.lookup "test_cases" = _ at hw
      rw [testsOf, testsOf, hv, hw]
      exact ⟨.nil, by simp⟩
  | some v =>
      obtain ⟨w, hcheck, hw⟩ := filled.lookup_of_present declared hv
      change fields'.lookup "test_cases" = _ at hw
      obtain ⟨xs, ys, rfl, rfl, pairs⟩ := Check.list_some hcheck
      rw [testsOf, testsOf, hv, hw]
      refine ⟨pairs.imp ?_, ?_⟩
      · intro v w hcheck
        exact Check.model_some (TestCaseData_distinct lax) hcheck
      · rintro v ⟨⟩
        exact ⟨rfl, rfl⟩

theorem item_tests (filled : Filled (JudgePayload lax) fields fields') {v : Value}
    (h : (Value.dict fields).item "test_cases" = .ok v) : v = .list (testsOf fields) := by
  rw [Value.item_dict] at h
  cases hl : fields.lookup "test_cases" with
  | none => simp [hl] at h
  | some w =>
      rw [hl] at h
      exact (Except.ok.inj h).symm.trans ((tests_validated filled).2 w hl).1

end Request

/-- Results that are validated to the same result. -/
def SameResult (lax : Lax) (r r' : JudgeResult Value) : Prop :=
  validateResult lax r = validateResult lax r'

theorem validateResult_wallTimeMs (lax : Lax) (r : JudgeResult Value) (wallTimeMs : Int) :
    validateResult lax { r with wallTimeMs := wallTimeMs } =
      (validateResult lax r).map fun r => { r with wallTimeMs := wallTimeMs } := by
  rw [validateResult, validateResult]
  cases r.submissionId with
  | str s =>
      cases hc : r.cases.mapM (validateCase lax) <;>
        simp [bind, Except.bind, Except.map, pure, Except.pure]
  | _ => rfl

theorem SameResult.wallTimeMs {r r' : JudgeResult Value} (same : SameResult lax r r')
    (wallTimeMs : Int) :
    SameResult lax { r with wallTimeMs := wallTimeMs } { r' with wallTimeMs := wallTimeMs } := by
  rw [SameResult, validateResult_wallTimeMs lax r, validateResult_wallTimeMs lax r', same]

/-- What a submission comes to. -/
structure Outcome where
  status : RunStatus
  result : Option Verdict
  score : ℚ
  cases : List (CaseResult ℚ)

def JudgeResult.outcome (r : JudgeResult ℚ) : Outcome := ⟨r.status, r.result, r.score, r.cases⟩

/-- A submission that could not be judged. -/
def Outcome.failed : Outcome := ⟨.FAILED, none, 0, []⟩

end AcojWorker
