import AcojWorker.Judge.PointValues
import AcojWorker.Judge.ValidatedRequest

/-!
# The STANDARD mode reads a request and its validated form alike

Judging runs in lockstep over the two, as long as what the mode reads looks the same in
them. Points are the one thing that may differ all along: they are carried as pairs of a
value that was sent and a coerced one, worth the same number.
-/

namespace AcojWorker.StandardMode

open Python Effect

variable {lax : Lax}

/-! ### What the mode reads -/

def declaredBatch (tc : List (String × Value)) : Value := (tc.lookup "batch_no").getD .none

/-- A test case that looks the same before and after validation. Batches matter only when
cases are scored by batches, dependencies only inside a batch. -/
structure CaseAlike (lax : Lax) (hasBatch : Bool) (problem tc : List (String × Value)) :
    Prop where
  caseNo : (intField lax "case_no").Alike id tc
  points : (floatField lax "points" 0).Alike Value.number tc
  limits : LimitsAlike lax problem tc
  inBatch : (optionalField "batch_no" (Check.int lax) (Check.int_stable lax)).Alike
    Value.truthy tc
  batchNo : hasBatch = true →
    (optionalField "batch_no" (Check.int lax) (Check.int_stable lax)).Alike Value.key tc
  batchDepends : hasBatch = true → declaredBatch tc ≠ .none →
    (listField "batch_depends" (Check.int lax) (Check.int_stable lax)).Alike dependencyKeys tc

def hasBatch (tests : List Value) : Bool :=
  match anyBatch tests with
  | .ok b => b
  | .error _ => false

/-- A test case next to its validated form, which looks the same. -/
def Alike (lax : Lax) (hasBatch : Bool) (problem : List (String × Value)) (v w : Value) : Prop :=
  ∃ tc tc', v = .dict tc ∧ w = .dict tc' ∧ Filled (TestCaseData lax) tc tc' ∧
    CaseAlike lax hasBatch problem tc

/-! ### Test cases -/

section Case

variable {hasBatch : Bool} {problem problem' : List (String × Value)} {v w : Value}

end Case

/-! ### Results with points before and after validation -/

/-- Points before and after validation. -/
structure PointPair where
  raw : Value
  validated : Value
  worth : ℚ
  raw_worth : raw.number = .ok worth
  validated_worth : validated.number = .ok worth

instance : Zero PointPair := ⟨⟨0, 0, 0, rfl, rfl⟩⟩

/-- Results that agree but for points that are worth the same. -/
def Paired (cases cases' : List (CaseResult Value)) : Prop :=
  ∃ zs : List (CaseResult PointPair), cases = zs.map (CaseResult.mapPoints PointPair.raw) ∧
    cases' = zs.map (CaseResult.mapPoints PointPair.validated)

section Loop

variable {tests tests' : List Value}

end Loop

/-! ### Scoring -/

section Score

variable {hasBatch : Bool} {problem : List (String × Value)} {tests tests' : List Value}
  {cases cases' : List (CaseResult Value)}

end Score

/-! ### The mode -/

section Request

variable {fields fields' : List (String × Value)}

end Request

end AcojWorker.StandardMode
