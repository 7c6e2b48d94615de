import AcojWorker.Judge.Standard

/-!
# STANDARD runs that differ in the sandbox's cases

The sandbox is asked once. Two worlds that differ only in the cases it reports make the same
calls, so what they come to differs as the two results assembled from these cases do.
-/

namespace AcojWorker

open Python Effect

def NotRunCases (op : SandboxOp) : Prop := ∀ request, op ≠ .runCases request

theorem notRunCases_of_preparesRequest {op : SandboxOp} (prepares : op.PreparesRequest) :
    NotRunCases op := by
  rintro request rfl
  exact prepares

/-- The same world, except for the cases the sandbox reports. -/
def mapCases {σ : Type} (g : RunCases → List CaseAnswer → List CaseAnswer) (h : World σ) : World σ
  | .runCases request, s =>
      match h (.runCases request) s with
      | (.ok batch, s') => (.ok { batch with cases := g request batch.cases }, s')
      | (.error e, s') => (.error e, s')
  | op, s => h op s

theorem mapCases_other {σ : Type} {g : RunCases → List CaseAnswer → List CaseAnswer} {h : World σ}
    (op : SandboxOp) (other : NotRunCases op) : mapCases g h op = h op := by
  funext s
  cases op with
  | runCases request => exact absurd rfl (other request)
  | _ => rfl

theorem alike_runCases {σ : Type} {g : RunCases → List CaseAnswer → List CaseAnswer}
    {h : World σ} (request : RunCases) :
    (call (.runCases request)).Alike h (mapCases g h)
      (Program.BothOk fun a b => (∃ s s', h (.runCases request) s = (.ok a, s')) ∧
        b = { a with cases := g request a.cases }) := by
  intro s
  have asked : ∀ w : World σ, (call (.runCases request)).run w s = w (.runCases request) s :=
    fun w => Program.run_perform w (S := Sandbox) (.runCases request) s
  rw [asked, asked, mapCases]
  split
  · rename_i batch s' answered
    exact .inr ⟨_, _, s', answered, rfl, _, _, rfl, rfl, ⟨s, s', answered⟩, rfl⟩
  · rename_i e s' raised
    exact .inl raised.symm

theorem mapCases_mapCases {σ : Type} (f g : RunCases → List CaseAnswer → List CaseAnswer)
    (h : World σ) :
    mapCases f (mapCases g h) = mapCases (fun request cases => f request (g request cases)) h := by
  funext op s
  cases op with
  | runCases request =>
      simp only [mapCases]
      rcases h (.runCases request) s with ⟨_ | _, _⟩ <;> rfl
  | _ => rfl

namespace StandardMode

/-- What the sandbox was asked for a request. -/
structure Asked (payload submissionId problem : Value) (tests : List Value)
    (stopOnFirst hasBatch : Bool) (request : RunCases) : Prop where
  readId : payload.item "submission_id" = .ok submissionId
  readProblem : payload.item "problem" = .ok problem
  readTests : (payload.item "test_cases" >>= Value.elements) = .ok tests
  readBatches : anyBatch tests = .ok hasBatch
  strategy : ∃ partialScore, problem.get "partial" (.bool false) = .ok partialScore ∧
    stopOnFirst = (!partialScore.truthy && !hasBatch)
  stops : request.stopOnFirstFailure = stopOnFirst
  count : request.cases.length = tests.length

/-- Where the result of a request comes from. -/
def Answered {σ : Type} (h : World σ) (payload : Value) (r : JudgeResult Value) : Prop :=
  ∃ submissionId problem tests,
    payload.item "submission_id" = .ok submissionId ∧
    payload.item "problem" = .ok problem ∧
    (payload.item "test_cases" >>= Value.elements) = .ok tests ∧
    ((tests = [] ∧ r = errorVerdict submissionId "没有测试点数据") ∨
      ∃ stopOnFirst hasBatch request batch s s',
        Asked payload submissionId problem tests stopOnFirst hasBatch request ∧
        h (.runCases request) s = (.ok batch, s') ∧
        assemble submissionId problem tests stopOnFirst hasBatch batch = .ok r)

theorem ensures_answered {σ : Type} {h : World σ} (payload : Value) :
    (judge payload).Ensures h (Answered h payload) := by
  refine ensures_read fun submissionId hid => ensures_read fun problem hproblem =>
    ensures_read fun languageCfg _ => ensures_read fun source _ =>
    ensures_read fun testCasesData htests => ensures_read fun tests helements =>
    ensures_read fun partialScore hpartial => Program.ensures_step fun language =>
    Program.ensures_step fun languageKey => ?_
  have read : (payload.item "test_cases" >>= Value.elements) = .ok tests :=
    bind_eq_ok.mpr ⟨testCasesData, htests, helements⟩
  refine Program.ensures_bind Program.ensures_mapM fun cases count => ?_
  refine Program.ensures_ite (fun none => Program.ensures_ret ?_) fun _ => ?_
  · rw [List.isEmpty_iff.mp none] at count
    exact ⟨submissionId, problem, tests, hid, hproblem, read,
      .inl ⟨List.length_eq_zero_iff.mp count.symm, rfl⟩⟩
  refine ensures_read fun hasBatch hbatch => Program.ensures_step fun client => ?_
  refine Program.ensures_bind (P := fun batch => ∃ request s s',
    Asked payload submissionId problem tests (!partialScore.truthy && !hasBatch) hasBatch request ∧
    h (.runCases request) s = (.ok batch, s')) (Program.ensures_onRaise ?_) ?_
  · refine Program.ensures_step fun _ => Program.ensures_step fun _ =>
      Program.ensures_step fun parallelism => Program.ensures_perform fun s batch s' answered => ?_
    exact ⟨_, s, s', ⟨hid, hproblem, read, hbatch, ⟨partialScore, hpartial, rfl⟩, rfl, count⟩,
      answered⟩
  · rintro batch ⟨request, s, s', asked, answered⟩
    refine Program.ensures_tryFinally (Program.ensures_lift fun r hr => ?_)
    exact ⟨submissionId, problem, tests, hid, hproblem, read,
      .inr ⟨_, hasBatch, request, batch, s, s', asked, answered, hr⟩⟩

/-- The results assembled from the cases of a batch and from other cases in their place. -/
def AssembledFrom {σ : Type} (h : World σ) (payload : Value)
    (g : RunCases → List CaseAnswer → List CaseAnswer) (x y : Except Exc (JudgeResult Value)) :
    Prop :=
  ∃ submissionId problem tests stopOnFirst hasBatch request batch s s',
    Asked payload submissionId problem tests stopOnFirst hasBatch request ∧
    h (.runCases request) s = (.ok batch, s') ∧
    x = assemble submissionId problem tests stopOnFirst hasBatch batch ∧
    y = assemble submissionId problem tests stopOnFirst hasBatch
      { batch with cases := g request batch.cases }

/-- Runs of one request in worlds that differ in the sandbox's cases. -/
theorem alike_judge {σ : Type} (g : RunCases → List CaseAnswer → List CaseAnswer) (h : World σ)
    (payload : Value) : (judge payload).Alike h (mapCases g h) (AssembledFrom h payload g) := by
  refine Program.alike_lift fun submissionId hid => Program.alike_lift fun problem hproblem =>
    Program.alike_lift fun languageCfg _ => Program.alike_lift fun source _ =>
    Program.alike_lift fun testCasesData htests => Program.alike_lift fun tests helements =>
    Program.alike_lift fun partialScore hpartial => ?_
  have same := mapCases_other (g := g) (h := h)
  refine Program.alike_step same (Program.calls_mono (buildLanguagesConfig_calls _ _)
    fun _ => notRunCases_of_preparesRequest) fun language =>
    Program.alike_lift fun languageKey _ => ?_
  refine Program.alike_bind same (Program.calls_mono (buildJudgeCases_calls _ _)
    fun _ => notRunCases_of_preparesRequest) Program.ensures_mapM fun cases count => ?_
  refine Program.alike_ite (fun _ => Program.alike_ret _) fun _ => ?_
  refine Program.alike_lift fun hasBatch hbatch => ?_
  refine Program.alike_step same (Program.calls_perform nofun) fun client => ?_
  refine Program.alike_seq (R := fun a b => ∃ request,
    Asked payload submissionId problem tests (!partialScore.truthy && !hasBatch) hasBatch request ∧
    (∃ s s', h (.runCases request) s = (.ok a, s')) ∧ b = { a with cases := g request a.cases }) same
    (Program.alike_onRaise same ?_ (Program.calls_perform nofun)) (fun batch => ?_) ?_
  · refine Program.alike_step same (Program.calls_perform nofun) fun _ =>
      Program.alike_step same (Program.calls_perform nofun) fun _ =>
      Program.alike_step same (Program.calls_perform nofun) fun standardParallelism => ?_
    refine Program.alike_mono (alike_runCases _) ?_
    rintro _ _ ⟨a, b, rfl, rfl, answered, replaced⟩
    exact ⟨a, b, rfl, rfl, _, ⟨hid, hproblem, bind_eq_ok.mpr ⟨testCasesData, htests, helements⟩,
      hbatch, ⟨partialScore, hpartial, rfl⟩, rfl, count⟩, answered, replaced⟩
  · exact Program.calls_tryFinally (Program.calls_lift _)
      (Program.calls_bind (Program.calls_perform nofun) fun _ => Program.calls_perform nofun)
  · rintro batch _ ⟨request, asked, ⟨t, t', answered⟩, rfl⟩ s
    rw [Program.run_tryFinally, Program.run_tryFinally, Program.run_lift,
      Program.run_lift]
    dsimp only
    split
    · exact .inr ⟨_, _, _, rfl, rfl, submissionId, problem, tests, _, hasBatch, request, batch,
        t, t', asked, answered, rfl, rfl⟩
    · exact .inl rfl

/-- Other cases from which the same result is assembled make no difference to a run. -/
theorem run_mapCases {σ : Type} {g : RunCases → List CaseAnswer → List CaseAnswer} {h : World σ}
    {payload : Value}
    (same : ∀ {submissionId problem tests stopOnFirst hasBatch request batch s s'},
      Asked payload submissionId problem tests stopOnFirst hasBatch request →
      h (.runCases request) s = (.ok batch, s') →
      assemble submissionId problem tests stopOnFirst hasBatch
          { batch with cases := g request batch.cases } =
        assemble submissionId problem tests stopOnFirst hasBatch batch) (s : σ) :
    (judge payload).run (mapCases g h) s = (judge payload).run h s := by
  rcases alike_judge g h payload s with
    alike | ⟨x, y, s', run, run', submissionId, problem, tests, stopOnFirst, hasBatch, request, batch,
      t, t', asked, answered, rfl, rfl⟩
  · exact alike
  · rw [run, run', same asked answered]

end StandardMode

end AcojWorker
