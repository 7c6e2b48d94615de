import AcojWorker.Judge.CaseNumbers

/-!
# The result protocol

Five places build a result by hand: the three modes, the orchestrator when a mode raises, and
the task when a request is rejected. All of them keep to one contract, but for two things. A
failure is explained by the text of an exception, which may be empty; and a submission whose
first failed case is itself a compile error is one without being marked as such.
-/

namespace AcojWorker

open Python Effect

variable {lax : Lax}

/-- What the receiver of a result relies on. -/
structure Consistent (pydantic : Pydantic) (payload : Value) (r : JudgeResult ℚ) : Prop where
  failed : r.status = .FAILED →
    r.result = none ∧ r.score = 0 ∧ r.cases = [] ∧ ∃ text, r.error = some text ∧ text ≠ ""
  completed : r.status = .COMPLETED →
    r.result ≠ none ∧ r.error = none ∧ (r.compileError = true ↔ r.result = some .CE)
  submission : ∀ normalized, validatePayload pydantic.toLax payload = some normalized →
    payload.item "submission_id" = .ok r.submissionId

/-- The result of the first case that failed. -/
def firstFailure (cases : List (CaseResult Value)) : Option Verdict :=
  (cases.find? fun c => c.result ≠ .AC ∧ c.result ≠ .SKIPPED).map fun c => c.result

section Explained

variable {σ : Type} (h : World σ)

/-- When a program compiled, the first failed case is not a compile error, unless the points of
the problem are reached all the same. -/
def StandardMode.ShowsCompileErrors (payload : Value) (raw : JudgeResult Value) : Prop :=
  ∀ submissionId problem tests stopOnFirst hasBatch request batch s s',
    Asked payload submissionId problem tests stopOnFirst hasBatch request →
    h (.runCases request) s = (.ok batch, s') →
    assemble submissionId problem tests stopOnFirst hasBatch batch = .ok raw →
    batch.compile.status = .AC → firstFailure raw.cases = some .CE →
    ReachesPoints problem raw.score

/-- A compile error of a case is one of the whole submission, and shown as such. -/
def ShowsCompileErrors (payload judgeMode : Value) (raw : JudgeResult Value) : Prop :=
  match judgeMode with
  | .str "SPECIAL_JUDGE" => True
  | .str "INTERACTIVE" => firstFailure raw.cases ≠ some .CE
  | _ => StandardMode.ShowsCompileErrors h payload raw

end Explained

/-! ### Cases that can be returned -/

/-- The case passes the validation of the result. -/
def Presentable (lax : Lax) (c : CaseResult Value) : Prop := ∃ c', validateCase lax c = .ok c'

theorem presentable_of {c : CaseResult Value} (number : ∃ z, Check.int lax c.caseNo = some (.int z))
    (worth : ∃ q, Check.float lax c.points = some (.float q)) : Presentable lax c := by
  obtain ⟨z, hz⟩ := number
  obtain ⟨q, hq⟩ := worth
  exact ⟨_, by rw [validateCase, hz, hq]⟩

/-- The points of a test case are a number. -/
theorem validCase_points {tc tc' : Value} (valid : ValidCase lax tc tc') :
    ∃ v q, tc.get "points" (.int 0) = .ok v ∧ Check.float lax v = some (.float q) := by
  obtain ⟨fields, fields', rfl, rfl, filled⟩ := valid
  have declared : floatField lax "points" 0 ∈ TestCaseData lax := by simp [TestCaseData]
  rw [Value.get_dict]
  cases hv : fields.lookup "points" with
  | none => exact ⟨_, 0, rfl, rfl⟩
  | some v =>
      obtain ⟨w, hcheck, _⟩ := filled.lookup_of_present declared hv
      obtain ⟨q, rfl⟩ := Check.float_some lax hcheck
      exact ⟨v, q, rfl, hcheck⟩

namespace StandardMode

variable {tests : List Value} {stopOnFirst hasBatch : Bool} {answers : List CaseAnswer}

theorem Entry.presentable (valid : ∀ tc ∈ tests, ∃ tc', ValidCase lax tc tc') {i : ℕ}
    {c : CaseResult Value} (entry : Entry tests stopOnFirst answers i c) : Presentable lax c := by
  obtain ⟨caseNo, _, ⟨answer, verdict, _, _, hresult⟩ | ⟨_, rfl⟩⟩ := entry
  · obtain ⟨hnumber, _, hpoints⟩ := caseResult_result hresult
    refine presentable_of ⟨caseNo, by rw [hnumber]; rfl⟩ ?_
    rw [caseMeta, List.getD_eq_getElem?_getD] at hpoints
    cases htc : tests[i]? with
    | none =>
        rw [htc] at hpoints
        rw [← Except.ok.inj hpoints]
        exact ⟨0, rfl⟩
    | some tc =>
        rw [htc, Option.getD_some] at hpoints
        obtain ⟨tc', validCase⟩ := valid tc (List.mem_of_getElem? htc)
        obtain ⟨v, q, hv, hcheck⟩ := validCase_points validCase
        exact ⟨q, Except.ok.inj (hv.symm.trans hpoints) ▸ hcheck⟩
  · exact presentable_of ⟨caseNo, rfl⟩ ⟨0, rfl⟩

theorem Settles.presentable {c c' : CaseResult Value} (settles : Settles c c')
    (presentable : Presentable lax c) : Presentable lax c' := by
  obtain ⟨d, valid⟩ := presentable
  have number : ∃ z, Check.int lax c.caseNo = some (.int z) := by
    obtain ⟨z, hz⟩ := Check.int_some lax (validateCase_ok valid)
    exact ⟨z, hz ▸ validateCase_ok valid⟩
  obtain rfl | rfl | rfl := settles
  · exact ⟨d, valid⟩
  · exact presentable_of number ⟨0, rfl⟩
  · exact presentable_of number ⟨0, rfl⟩

theorem assemble_presentable {submissionId problem : Value} {batch : BatchAnswer}
    {r : JudgeResult Value} (valid : ∀ tc ∈ tests, ∃ tc', ValidCase lax tc tc')
    (assembled : assemble submissionId problem tests stopOnFirst hasBatch batch = .ok r) :
    ∀ c ∈ r.cases, Presentable lax c := by
  obtain ⟨progress, loop, assembled⟩ := bind_eq_ok.mp assembled
  obtain ⟨raw, padded, assembled⟩ := bind_eq_ok.mp assembled
  obtain ⟨⟨cases, total⟩, scored, assembled⟩ := bind_eq_ok.mp assembled
  obtain ⟨verdict, _, assembled⟩ := bind_eq_ok.mp assembled
  cases assembled
  intro c hc
  obtain ⟨c₀, hc₀, settles⟩ := score_from scored c hc
  obtain ⟨i, hi⟩ := List.mem_iff_getElem?.mp hc₀
  have entry := padSkipped_entries (foldlM_judgeCase_reports loop) padded i c₀ hi
  exact Settles.presentable settles (entry.presentable valid)

end StandardMode

theorem Rounds.presentable {σ : Type} {h : World σ} {mode : CaseMode}
    {payload submissionId problem : Value} {tests : List Value} {points : ℚ} {tally : Tally}
    (rounds : Rounds h mode payload submissionId problem tests points tally)
    (valid : ∀ tc ∈ tests, ∃ tc', ValidCase lax tc tc') :
    ∀ c ∈ tally.cases, Presentable lax c := by
  intro c hc
  obtain ⟨tc, htc, entry⟩ := forall₂_mem rounds.reflects.entries c hc
  obtain ⟨tc', validCase⟩ := valid tc htc
  obtain ⟨v, z, item, _, hcheck, _⟩ := validCase_number validCase
  have hworth := rounds.reflects.worth c hc
  refine presentable_of ⟨z, ?_⟩ ⟨_, by rw [hworth]; rfl⟩
  rwa [← Except.ok.inj (item.symm.trans entry)]

/-! ### What the modes return -/

section Modes

variable {σ : Type} {h : World σ} {payload judgeMode : Value} {raw : JudgeResult Value}

/-- What the orchestrator and the task rely on of the result of a mode. -/
structure ModeResult (h : World σ) (lax : Lax) (payload judgeMode : Value)
    (raw : JudgeResult Value) : Prop where
  readId : payload.item "submission_id" = .ok raw.submissionId
  presentable : ∀ c ∈ raw.cases, Presentable lax c
  failed : raw.status = .FAILED →
    raw.result = none ∧ raw.score = 0 ∧ raw.cases = [] ∧ ∃ text, raw.error = some text ∧ text ≠ ""
  completed : raw.status = .COMPLETED → raw.result ≠ none ∧ raw.error = none
  shown : (raw.status = .COMPLETED → (raw.compileError = true ↔ raw.result = some .CE)) ↔
    ShowsCompileErrors h payload judgeMode raw

theorem showsCompileErrors_nil (none : raw.cases = []) :
    ShowsCompileErrors h payload judgeMode raw := by
  have nothing : firstFailure raw.cases ≠ some .CE := by simp [none, firstFailure]
  unfold ShowsCompileErrors
  split
  · trivial
  · exact nothing
  · intro _ _ _ _ _ _ _ _ _ _ _ _ _ first
    exact absurd first nothing

/-- A failure that a mode reports itself. -/
theorem modeResult_errorVerdict {submissionId : Value} {msg : String}
    (hid : payload.item "submission_id" = .ok submissionId) (text : msg ≠ "") :
    ModeResult h lax payload judgeMode (errorVerdict submissionId msg) where
  readId := hid
  presentable := nofun
  failed := fun _ => ⟨rfl, rfl, rfl, msg, rfl, text⟩
  completed := nofun
  shown := ⟨fun _ => showsCompileErrors_nil rfl, fun _ => nofun⟩

theorem computeOverallResult_eq (cases : List (CaseResult Value)) :
    computeOverallResult false cases = (firstFailure cases).getD .AC := by
  rw [computeOverallResult, firstFailure]
  simp only [Bool.false_eq_true, if_false]
  cases cases.find? fun c => c.result ≠ .AC ∧ c.result ≠ .SKIPPED <;> rfl

theorem firstFailure_ne_AC {cases : List (CaseResult Value)} {verdict : Verdict}
    (first : firstFailure cases = some verdict) : ∃ c ∈ cases, c.result = verdict ∧ c.result ≠ .AC := by
  obtain ⟨c, hc, rfl⟩ := Option.map_eq_some_iff.mp first
  have bad := List.find?_some hc
  simp only [ne_eq, decide_eq_true_eq] at bad
  exact ⟨c, List.mem_of_find?_eq_some hc, rfl, bad.1⟩

/-- An assembled result is CE if its program did not compile, or if its first failed case is
and the points of the problem are not reached. -/
theorem StandardMode.assemble_CE {submissionId problem : Value} {tests : List Value}
    {stopOnFirst hasBatch : Bool} {batch : BatchAnswer}
    (assembled : assemble submissionId problem tests stopOnFirst hasBatch batch = .ok raw) :
    raw.submissionId = submissionId ∧ raw.status = .COMPLETED ∧ raw.result ≠ none ∧
      raw.error = none ∧
      ((raw.compileError = true ↔ raw.result = some .CE) ↔
        (batch.compile.status = .AC → firstFailure raw.cases = some .CE →
          ReachesPoints problem raw.score)) := by
  obtain ⟨progress, _, assembled⟩ := bind_eq_ok.mp assembled
  obtain ⟨results, _, assembled⟩ := bind_eq_ok.mp assembled
  obtain ⟨⟨cases, total⟩, _, assembled⟩ := bind_eq_ok.mp assembled
  obtain ⟨verdict, hverdict, assembled⟩ := bind_eq_ok.mp assembled
  cases assembled
  refine ⟨rfl, rfl, nofun, rfl, ?_⟩
  by_cases compiled : batch.compile.status = .AC
  · simp only [compiled, ne_eq, not_true_eq_false, decide_false] at hverdict ⊢
    obtain ⟨declared, hdeclared, hverdict⟩ := bind_eq_ok.mp hverdict
    obtain ⟨points, hpoints, hverdict⟩ := bind_eq_ok.mp hverdict
    have read : (problem.item "points" >>= Value.number) = .ok points :=
      bind_eq_ok.mpr ⟨declared, hdeclared, hpoints⟩
    have reaches : ReachesPoints problem total ↔ points ≤ total := by
      constructor
      · rintro ⟨points', hpoints', le⟩
        exact Except.ok.inj (read.symm.trans hpoints') ▸ le
      · exact fun le => ⟨points, read, le⟩
    rw [reaches, ← Except.ok.inj hverdict, computeOverallResult_eq]
    by_cases le : points ≤ total
    · simp [le]
    · cases first : firstFailure cases <;> simp [le]
  · simp only [ne_eq, compiled, not_false_eq_true, decide_true, overallResult, if_true] at hverdict ⊢
    cases hverdict
    simp

theorem StandardMode.ensures_modeResult {name : String} (special : name ≠ "SPECIAL_JUDGE")
    (interactive : name ≠ "INTERACTIVE")
    (valid : ∀ tests, (payload.item "test_cases" >>= Value.elements) = .ok tests →
      ∀ tc ∈ tests, ∃ tc', ValidCase lax tc tc') :
    (judge payload).Ensures h (ModeResult h lax payload (.str name)) := by
  refine Program.ensures_mono (ensures_answered payload) ?_
  rintro raw ⟨submissionId, problem, tests, hid, _, htests, ⟨_, rfl⟩ |
    ⟨stopOnFirst, hasBatch, request, batch, s, s', asked, answered, assembled⟩⟩
  · exact modeResult_errorVerdict hid (by decide)
  obtain ⟨id, status, result, error, shown⟩ := assemble_CE assembled
  refine ⟨id ▸ hid, assemble_presentable (valid tests htests) assembled,
    fun failed => (nomatch status.symm.trans failed), fun _ => ⟨result, error⟩, ?_⟩
  have mode : AcojWorker.ShowsCompileErrors h payload (.str name) raw =
      ShowsCompileErrors h payload raw := by
    unfold AcojWorker.ShowsCompileErrors
    split
    · next same => exact absurd (Value.str.inj same) special
    · next same => exact absurd (Value.str.inj same) interactive
    · rfl
  rw [mode]
  constructor
  · intro agrees _ problem' _ _ _ _ _ _ _ asked' answered' assembled' compiled first
    obtain ⟨_, _, _, _, shown'⟩ := assemble_CE assembled'
    exact shown'.mp (agrees status) compiled first
  · exact fun shows _ => shown.mpr (shows _ _ _ _ _ _ _ _ _ asked answered assembled)

/-- Case by case a compile error is never marked. -/
theorem CaseMode.ensures_modeResult {mode : CaseMode}
    (valid : ∀ tests, (payload.item "test_cases" >>= Value.elements) = .ok tests →
      ∀ tc ∈ tests, ∃ tc', ValidCase lax tc tc')
    (shown : ∀ submissionId problem tests points tally,
      Rounds h mode payload submissionId problem tests points tally →
      (mode.verdict tally ≠ .CE ↔
        ShowsCompileErrors h payload judgeMode (tally.result submissionId (mode.verdict tally)))) :
    (mode.judge payload).Ensures h (ModeResult h lax payload judgeMode) := by
  refine Program.ensures_mono (ensures_judge mode payload) ?_
  rintro raw (⟨submissionId, problem, tests, points, tally, rounds, rfl⟩ |
    ⟨submissionId, msg, hid, text, rfl⟩)
  · refine ⟨rounds.readId, rounds.presentable (valid tests rounds.readTests), nofun,
      fun _ => ⟨nofun, rfl⟩, ?_⟩
    rw [← shown submissionId problem tests points tally rounds]
    simp [Tally.result]
  · exact modeResult_errorVerdict hid text

theorem SpecialJudgeMode.verdict_ne_CE (tally : Tally) : CaseMode.special.verdict tally ≠ .CE := by
  rw [CaseMode.verdict]
  split <;> simp

theorem InteractiveMode.verdict_ne_CE {tally : Tally} {points : ℚ} {tests : List Value}
    (seen : tally.Reflects points tests) :
    CaseMode.interactive.verdict tally ≠ .CE ↔ firstFailure tally.cases ≠ some .CE := by
  rw [CaseMode.verdict, overallResult]
  cases first : firstFailure tally.cases with
  | none =>
      have found := Option.map_eq_none_iff.mp first
      rw [found]
      split <;> simp
  | some verdict =>
      obtain ⟨c, hc, _, bad⟩ := firstFailure_ne_AC first
      have failed : ¬ tally.allAC = true := fun all => bad (seen.allAC.mp all c hc)
      obtain ⟨d, hd, rfl⟩ := Option.map_eq_some_iff.mp first
      rw [if_neg failed, hd]
      simp

end Modes

/-! ### Whole runs -/

section Runs

variable {σ : Type} {h : World σ}

/-- The mode of a valid request. -/
theorem dispatched {fields fields' : List (String × Value)}
    (filled : Filled (JudgePayload lax) fields fields') :
    ∃ mode, modeOf (judgeModeOf fields) = .ok mode ∧
      (mode (.dict fields)).Ensures h (ModeResult h lax (.dict fields) (judgeModeOf fields)) := by
  obtain ⟨name, hname⟩ := judgeMode_text filled
  have valid : ∀ tests, ((Value.dict fields).item "test_cases" >>= Value.elements) = .ok tests →
      ∀ tc ∈ tests, ∃ tc', ValidCase lax tc tc' := fun _ read => validCases filled read
  rw [hname]
  by_cases special : name = "SPECIAL_JUDGE"
  · subst special
    refine ⟨CaseMode.special.judge, rfl, CaseMode.ensures_modeResult valid ?_⟩
    intro _ _ _ _ tally _
    exact ⟨fun _ => trivial, fun _ => SpecialJudgeMode.verdict_ne_CE tally⟩
  by_cases interactive : name = "INTERACTIVE"
  · subst interactive
    refine ⟨CaseMode.interactive.judge, rfl, CaseMode.ensures_modeResult valid ?_⟩
    intro _ _ _ _ tally rounds
    exact InteractiveMode.verdict_ne_CE rounds.reflects
  exact ⟨_, modeOf_standard special interactive,
    StandardMode.ensures_modeResult special interactive valid⟩

end Runs

section Requests

open StandardMode (freeCase printed printingWorld requestWorth scriptOf)

end Requests

end AcojWorker
