import AcojWorker.Judge.CaseByCase
import AcojWorker.Judge.PayloadAgreement

/-!
# Which case a reported result belongs to

A result is computed for a test case at some position and carries a case number. The modes
that judge case by case take the number from the test case; the STANDARD mode carries the
position through the sandbox, the padding and the batches, and looks the number up again
afterwards. A number that is zero counts there as one that is missing.
-/

namespace AcojWorker

open Python Effect

variable {lax : Lax}

/-- The coerced number of a test case. -/
def declaredNumber (lax : Lax) (tc : Value) : Option Value :=
  match tc.item "case_no" with
  | .ok v => Check.int lax v
  | .error _ => none

section ComputedFrom

variable {σ : Type} (h : World σ)

/-- A result as the scoring of batches leaves it. -/
def Settles (c c' : CaseResult Value) : Prop := c' = c ∨ c' = c.skip ∨ c' = { c with points := 0 }

/-- A result computed from the sandbox's answers for the test case at a position. -/
def StandardMode.Computes (tests : List Value) (i : ℕ) (c : CaseResult Value) : Prop :=
  ∃ request batch s s' stopOnFirst raw, h (.runCases request) s = (.ok batch, s') ∧
    Entry tests stopOnFirst batch.cases i raw ∧ Settles raw c

/-- A result added by the round for the test case at a position. -/
def CaseMode.Computes (mode : CaseMode) (i : ℕ) (tc : Value) (c : CaseResult Value) : Prop :=
  ∃ (problem : Value) (points : ℚ) (round : Tally → Value → Judging Tally) (tally tally' : Tally)
    (s s' : σ), mode.IsRound problem points round ∧
    (round tally tc).run h s = (.ok tally', s') ∧ tally.cases.length = i ∧
    tally'.cases = tally.cases ++ [c]

/-- A result of the mode of a request, computed for the test case at a position. -/
def ComputedFrom (judgeMode : Value) (tests : List Value) (i : ℕ) (tc : Value)
    (c : CaseResult Value) : Prop :=
  match judgeMode with
  | .str "SPECIAL_JUDGE" => CaseMode.special.Computes h i tc c
  | .str "INTERACTIVE" => CaseMode.interactive.Computes h i tc c
  | _ => StandardMode.Computes h tests i c

/-- The reported cases are the test cases, each with a result computed for it and with its
number. -/
def Numbered (lax : Lax) (judgeMode : Value) (tests : List Value)
    (cases : List (CaseResult ℚ)) : Prop :=
  ∃ arranged : List (CaseResult ℚ), cases.Perm arranged ∧ arranged.length = tests.length ∧
    ∀ (i : ℕ) (tc : Value) (c : CaseResult ℚ), tests[i]? = some tc → arranged[i]? = some c →
      declaredNumber lax tc = some c.caseNo ∧
        ∃ raw, ComputedFrom h judgeMode tests i tc raw ∧ validateCase lax raw = .ok c

end ComputedFrom

/-! ### Numbers -/

section Numbers

theorem validateCase_ok {c : CaseResult Value} {c' : CaseResult ℚ}
    (valid : validateCase lax c = .ok c') : Check.int lax c.caseNo = some c'.caseNo := by
  rw [validateCase] at valid
  split at valid
  · rename_i number _
    cases valid
    exact number
  · cases valid

/-- The number of a test case, sent and coerced. -/
theorem validCase_number {tc tc' : Value} (valid : ValidCase lax tc tc') :
    ∃ v z, tc.item "case_no" = .ok v ∧ tc.get "case_no" .none = .ok v ∧
      Check.int lax v = some (.int z) ∧ declaredNumber lax tc = some (.int z) := by
  obtain ⟨fields, fields', rfl, rfl, filled⟩ := valid
  have declared : intField lax "case_no" ∈ TestCaseData lax := by simp [TestCaseData]
  obtain ⟨v, hv⟩ := Option.isSome_iff_exists.mp (filled.present_of_required declared rfl)
  obtain ⟨w, hcheck, _⟩ := filled.lookup_of_present declared hv
  obtain ⟨z, rfl⟩ := Check.int_some lax hcheck
  change fields.lookup "case_no" = some v at hv
  have read : (Value.dict fields).item "case_no" = .ok v := by rw [Value.item_dict, hv]
  refine ⟨v, z, read, ?_, hcheck, ?_⟩
  · rw [Value.get_dict, hv]
    rfl
  · rw [declaredNumber, read]
    exact hcheck

end Numbers

/-! ### The STANDARD mode -/

namespace StandardMode

variable {tests : List Value} {hasBatch hasCe : Bool}

theorem Settles.caseNo {c c' : CaseResult Value} (settles : Settles c c') :
    c'.caseNo = c.caseNo := by
  obtain rfl | rfl | rfl := settles <;> rfl

theorem settles_reported (xs : RawCases Key Value) (x : BatchInfo Key × CaseResult Value) :
    Settles x.2 (xs.reported x) := by
  rw [RawCases.reported]
  split
  · exact .inl rfl
  · split_ifs
    · exact .inr (.inl rfl)
    · exact .inl rfl
    · exact .inr (.inr rfl)

/-- A reported case is one of those that were scored. -/
theorem score_from {raw cases : List (CaseResult Value)} {total : ℚ}
    (scored : score hasBatch hasCe tests raw = .ok (cases, total)) :
    ∀ c ∈ cases, ∃ c₀ ∈ raw, Settles c₀ c := by
  intro c hc
  cases hasBatch with
  | false =>
      obtain rfl := score_unbatched scored
      exact ⟨c, hc, .inl rfl⟩
  | true =>
      obtain ⟨infos, _, scored⟩ := bind_eq_ok.mp scored
      rw [aggregateBatches_cases scored] at hc
      obtain ⟨x, hx, rfl⟩ := List.mem_map.mp hc
      have paired := (RawCases.layout_perm (infos.zip raw)).mem_iff.mp hx
      exact ⟨x.2, (List.of_mem_zip paired).2, settles_reported _ x⟩

/-- A result computed for a test case has the number the mode reads for it. -/
theorem Computes.number {σ : Type} {h : World σ} {i : ℕ} {c : CaseResult Value}
    (computed : Computes h tests i c) :
    ∃ n, caseNumber (caseMeta tests i) i = .ok n ∧ c.caseNo = .int n := by
  obtain ⟨_, _, _, _, _, raw, _, ⟨n, hn, entry⟩, settles⟩ := computed
  refine ⟨n, hn, (Settles.caseNo settles).trans ?_⟩
  obtain ⟨answer, verdict, _, _, hraw⟩ | ⟨_, rfl⟩ := entry
  · exact (caseResult_result hraw).1
  · rfl

end StandardMode

/-! ### The modes that judge case by case -/

section Runs

variable {σ : Type} {h : World σ} {tests : List Value}

/-- The test cases of a validated request. -/
theorem validCases {fields fields' : List (String × Value)}
    (filled : Filled (JudgePayload lax) fields fields')
    (read : ((Value.dict fields).item "test_cases" >>= Value.elements) = .ok tests) :
    ∀ tc ∈ tests, ∃ tc', ValidCase lax tc tc' := by
  obtain ⟨v, item, elements⟩ := bind_eq_ok.mp read
  rw [item_tests filled item] at elements
  obtain rfl := Except.ok.inj elements
  intro tc htc
  obtain ⟨tc', _, valid⟩ := forall₂_mem (tests_validated filled).1.flip tc htc
  exact ⟨tc', valid⟩

end Runs

section Zero

open StandardMode (freeCase printingWorld requestWorth)

end Zero

end AcojWorker
