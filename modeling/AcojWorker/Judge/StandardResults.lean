import AcojWorker.Judge.Standard

/-!
# The results of a STANDARD request, case by case

A result stands at the position of its test case and carries its number, whether it was
computed from an answer of the sandbox or stands for a case that was skipped. Where the first
failure ends a submission, the cases after it are skipped, no matter whether the sandbox or
the worker noticed that failure.
-/

namespace AcojWorker.StandardMode

open Python Effect

/-- The result at a position: that of the answer there, or of a case that was skipped. -/
def Entry (tests : List Value) (stopOnFirst : Bool) (answers : List CaseAnswer) (i : ℕ)
    (c : CaseResult Value) : Prop :=
  ∃ caseNo, caseNumber (caseMeta tests i) i = .ok caseNo ∧
    ((∃ answer verdict, answers[i]? = some answer ∧ caseVerdict answer = .ok verdict ∧
        caseResult (caseMeta tests i) caseNo answer verdict = .ok c) ∨
      stopOnFirst = true ∧ c = skippedResult caseNo)

/-- Accepted cases, one that failed, and skipped cases after it. -/
def FailsOnce (cases : List (CaseResult Value)) : Prop :=
  ∃ passed failed skipped, cases = passed ++ failed :: skipped ∧
    (∀ c ∈ passed, c.result = .AC) ∧ failed.result ≠ .AC ∧ failed.result ≠ .SKIPPED ∧
    ∀ c ∈ skipped, c.result = .SKIPPED

/-- What the loop has established after its first `n` answers. -/
structure Progress.Reports (progress : Progress) (stopOnFirst : Bool) (tests : List Value)
    (answers : List CaseAnswer) (n : ℕ) : Prop where
  length : progress.results.length = n
  entries : ∀ i c, progress.results[i]? = some c → Entry tests stopOnFirst answers i c
  passed : progress.hadFailure = false → ∀ c ∈ progress.results, c.result = .AC
  failed : progress.hadFailure = true → stopOnFirst = true → FailsOnce progress.results
  noticed : ∀ answer ∈ answers.take n, answer.status ≠ .AC → progress.hadFailure = true

theorem FailsOnce.append {cases skipped : List (CaseResult Value)} (h : FailsOnce cases)
    (skips : ∀ c ∈ skipped, c.result = .SKIPPED) : FailsOnce (cases ++ skipped) := by
  obtain ⟨passed, failed, rest, rfl, accepted, bad, judged, rested⟩ := h
  refine ⟨passed, failed, rest ++ skipped, by simp, accepted, bad, judged, ?_⟩
  intro c hc
  exact (List.mem_append.mp hc).elim (rested c) (skips c)

theorem caseVerdict_ne_SKIPPED {answer : CaseAnswer} {verdict : Verdict}
    (h : caseVerdict answer = .ok verdict) : verdict ≠ .SKIPPED := by
  rw [caseVerdict] at h
  split at h
  · obtain ⟨outputMatch, _, h⟩ := bind_eq_ok.mp h
    cases h
    split <;> exact nofun
  · cases h
    exact toOjResult_ne_SKIPPED _

/-- Only a run the sandbox accepts can be an accepted case. -/
theorem caseVerdict_AC_status {answer : CaseAnswer} (h : caseVerdict answer = .ok .AC) :
    answer.status = .AC := by
  rw [caseVerdict] at h
  split at h
  · assumption
  · exact toOjResult_eq_AC.mp (Except.ok.inj h)

theorem caseResult_result {tcMeta : Value} {caseNo : Int} {answer : CaseAnswer}
    {verdict : Verdict} {c : CaseResult Value}
    (h : caseResult tcMeta caseNo answer verdict = .ok c) :
    c.caseNo = .int caseNo ∧ c.result = verdict ∧ tcMeta.get "points" (.int 0) = .ok c.points := by
  obtain ⟨points, hpoints, h⟩ := bind_eq_ok.mp h
  cases h
  exact ⟨rfl, rfl, hpoints⟩

variable {stopOnFirst : Bool} {tests : List Value} {answers : List CaseAnswer}

/-- The two ways a round of the loop ends. -/
theorem judgeCase_cases {progress progress' : Progress} {answer : CaseAnswer}
    (step : judgeCase stopOnFirst tests progress answer = .ok progress') :
    ∃ caseNo, caseNumber (caseMeta tests progress.results.length) progress.results.length =
        .ok caseNo ∧
      ((stopOnFirst = true ∧ progress.hadFailure = true ∧
          progress' = ⟨progress.results ++ [skippedResult caseNo], true⟩) ∨
        ∃ verdict c, ¬ (stopOnFirst = true ∧ progress.hadFailure = true) ∧
          caseVerdict answer = .ok verdict ∧
          caseResult (caseMeta tests progress.results.length) caseNo answer verdict = .ok c ∧
          progress' = ⟨progress.results ++ [c], progress.hadFailure || verdict != .AC⟩) := by
  obtain ⟨caseNo, hcaseNo, step⟩ := bind_eq_ok.mp step
  refine ⟨caseNo, hcaseNo, ?_⟩
  split at step
  · rename_i stopped
    rw [Bool.and_eq_true] at stopped
    cases step
    exact .inl ⟨stopped.1, stopped.2, by rw [← stopped.2]⟩
  · rename_i running
    rw [Bool.and_eq_true] at running
    obtain ⟨verdict, hverdict, step⟩ := bind_eq_ok.mp step
    obtain ⟨c, hc, step⟩ := bind_eq_ok.mp step
    cases step
    exact .inr ⟨verdict, c, running, hverdict, hc, rfl⟩

theorem judgeCase_reports {progress progress' : Progress} {answer : CaseAnswer} {n : ℕ}
    (seen : progress.Reports stopOnFirst tests answers n) (next : answers[n]? = some answer)
    (step : judgeCase stopOnFirst tests progress answer = .ok progress') :
    progress'.Reports stopOnFirst tests answers (n + 1) := by
  obtain ⟨caseNo, hcaseNo, ended⟩ := judgeCase_cases step
  rw [seen.length] at hcaseNo ended
  have extend : ∀ c, Entry tests stopOnFirst answers n c →
      ∀ i d, (progress.results ++ [c])[i]? = some d → Entry tests stopOnFirst answers i d := by
    intro c hc i d hd
    rw [List.getElem?_append] at hd
    split at hd
    · exact seen.entries i d hd
    · rename_i beyond
      rw [List.getElem?_singleton] at hd
      split at hd
      · cases hd
        rwa [show i = n by rw [seen.length] at *; omega]
      · cases hd
  have taken : answers.take (n + 1) = answers.take n ++ [answer] := by
    rw [List.take_add_one, next]
    rfl
  obtain ⟨stop, failed, rfl⟩ | ⟨verdict, c, running, hverdict, hc, rfl⟩ := ended
  · refine ⟨by simp [seen.length], extend _ ⟨caseNo, hcaseNo, .inr ⟨stop, rfl⟩⟩, nofun, ?_,
      fun _ _ _ => rfl⟩
    intro _ _
    exact (seen.failed failed stop).append (by simp [skippedResult])
  · obtain ⟨-, hresult, -⟩ := caseResult_result hc
    refine ⟨by simp [seen.length],
      extend c ⟨caseNo, hcaseNo, .inl ⟨answer, verdict, next, hverdict, hc⟩⟩, ?_, ?_, ?_⟩
    · intro quiet d hd
      obtain ⟨before, now⟩ := Bool.or_eq_false_iff.mp quiet
      rcases List.mem_append.mp hd with hd | hd
      · exact seen.passed before d hd
      · rw [List.mem_singleton.mp hd, hresult]
        simpa using now
    · intro failed stop
      have before : progress.hadFailure = false := by
        by_contra failedBefore
        exact running ⟨stop, by simpa using failedBefore⟩
      have now : verdict ≠ .AC := by simpa [before] using failed
      exact ⟨progress.results, c, [], rfl, seen.passed before, hresult ▸ now,
        hresult ▸ caseVerdict_ne_SKIPPED hverdict, nofun⟩
    · intro a ha bad
      rw [taken] at ha
      rcases List.mem_append.mp ha with ha | ha
      · simp [seen.noticed a ha bad]
      · rw [List.mem_singleton.mp ha] at bad
        have now : verdict ≠ .AC := by
          rintro rfl
          exact bad (caseVerdict_AC_status hverdict)
        simp [now]

theorem foldlM_judgeCase_reports {progress : Progress}
    (run : answers.foldlM (judgeCase stopOnFirst tests) ⟨[], false⟩ = .ok progress) :
    progress.Reports stopOnFirst tests answers answers.length := by
  suffices loop : ∀ (rest done : List CaseAnswer) (start : Progress), answers = done ++ rest →
      start.Reports stopOnFirst tests answers done.length →
      rest.foldlM (judgeCase stopOnFirst tests) start = .ok progress →
      progress.Reports stopOnFirst tests answers answers.length from
    loop answers [] ⟨[], false⟩ rfl ⟨rfl, by simp, by simp, nofun, by simp⟩ run
  intro rest
  induction rest with
  | nil =>
      rintro done start split seen run
      cases run
      rwa [show answers.length = done.length by simp [split]]
  | cons answer rest ih =>
      intro done start split seen run
      rw [List.foldlM_cons] at run
      obtain ⟨next, step, run⟩ := bind_eq_ok.mp run
      have here : answers[done.length]? = some answer := by simp [split]
      refine ih (done ++ [answer]) next (by simp [split]) ?_ run
      simpa using judgeCase_reports seen here step

/-- Outside the batches the results are reported as they are. -/
theorem score_unbatched {hasCe : Bool} {raw cases : List (CaseResult Value)} {total : ℚ}
    (scored : score false hasCe tests raw = .ok (cases, total)) : cases = raw := by
  rw [score, if_neg (by simp)] at scored
  split at scored
  · cases scored
    rfl
  · obtain ⟨sum, _, scored⟩ := bind_eq_ok.mp scored
    cases scored
    rfl

/-! ### Padding -/

/-- The results before they are scored. -/
structure RawResults (stopOnFirst : Bool) (tests : List Value) (answers : List CaseAnswer)
    (raw : List (CaseResult Value)) : Prop where
  entries : ∀ i c, raw[i]? = some c → Entry tests stopOnFirst answers i c
  shape : stopOnFirst = true → (∀ c ∈ raw, c.result = .AC) ∨ FailsOnce raw
  length : raw.length = answers.length ∨ raw.length = tests.length
  complete : stopOnFirst = true → (∃ answer ∈ answers, answer.status ≠ .AC) →
    raw.length = tests.length

/-- The skipped cases of the padding stand at the positions the sandbox did not get to. -/
theorem padding_entries (answers : List CaseAnswer) {done : ℕ} {missing : List (CaseResult Value)} (stop : stopOnFirst = true)
    (padding : (tests.zipIdx.drop done).mapM (fun tc => do
      return skippedResult (← caseNumber tc.1 tc.2)) = .ok missing) :
    missing.length = tests.length - done ∧
      (∀ c ∈ missing, c.result = .SKIPPED) ∧
      ∀ i c, missing[i]? = some c → Entry tests stopOnFirst answers (done + i) c := by
  have pairs := mapM_forall₂ padding
  have skipped : ∀ i c, missing[i]? = some c → ∃ caseNo,
      caseNumber (caseMeta tests (done + i)) (done + i) = .ok caseNo ∧ c = skippedResult caseNo := by
    intro i c hc
    obtain ⟨inside, rfl⟩ := List.getElem?_eq_some_iff.mp hc
    have bound : i < (tests.zipIdx.drop done).length := pairs.length_eq ▸ inside
    have read := List.Forall₂.get pairs bound inside
    obtain ⟨caseNo, hcaseNo, made⟩ := bind_eq_ok.mp read
    refine ⟨caseNo, ?_, (Except.ok.inj made).symm⟩
    have within : done + i < tests.length := by
      rw [List.length_drop, List.length_zipIdx] at bound
      omega
    simpa [caseMeta, List.getD_eq_getElem?_getD, within] using hcaseNo
  refine ⟨?_, ?_, ?_⟩
  · rw [← pairs.length_eq, List.length_drop, List.length_zipIdx]
  · intro c hc
    obtain ⟨i, hi⟩ := List.mem_iff_getElem?.mp hc
    obtain ⟨caseNo, _, rfl⟩ := skipped i c hi
    rfl
  · intro i c hc
    obtain ⟨caseNo, hcaseNo, rfl⟩ := skipped i c hc
    exact ⟨caseNo, hcaseNo, .inr ⟨stop, rfl⟩⟩

theorem padSkipped_entries {progress : Progress} {raw : List (CaseResult Value)} {n : ℕ}
    (seen : progress.Reports stopOnFirst tests answers n)
    (padded : padSkipped stopOnFirst tests progress = .ok raw) :
    ∀ i c, raw[i]? = some c → Entry tests stopOnFirst answers i c := by
  rw [padSkipped] at padded
  split at padded
  · rename_i stopped
    obtain ⟨missing, padding, padded⟩ := bind_eq_ok.mp padded
    cases padded
    obtain ⟨_, _, entries⟩ :=
      padding_entries answers (Bool.and_eq_true_iff.mp stopped).1 padding
    intro i c hc
    rw [List.getElem?_append] at hc
    split at hc
    · exact seen.entries i c hc
    · have := entries _ c hc
      rwa [show progress.results.length + (i - progress.results.length) = i by omega] at this
  · cases padded
    exact seen.entries

theorem padSkipped_raw {progress : Progress} {raw : List (CaseResult Value)}
    (seen : progress.Reports stopOnFirst tests answers answers.length)
    (short : answers.length ≤ tests.length)
    (padded : padSkipped stopOnFirst tests progress = .ok raw) :
    RawResults stopOnFirst tests answers raw := by
  have entries := padSkipped_entries seen padded
  rw [padSkipped] at padded
  split at padded
  · rename_i stopped
    obtain ⟨stop, failed⟩ := Bool.and_eq_true_iff.mp stopped
    obtain ⟨missing, padding, padded⟩ := bind_eq_ok.mp padded
    cases padded
    rw [seen.length] at padding
    obtain ⟨length, skips, _⟩ := padding_entries answers stop padding
    have total : (progress.results ++ missing).length = tests.length := by
      rw [List.length_append, seen.length, length]
      omega
    exact ⟨entries, fun _ => .inr ((seen.failed failed stop).append skips), .inr total,
      fun _ _ => total⟩
  · rename_i running
    cases padded
    have quiet : stopOnFirst = true → progress.hadFailure = false := by
      intro stop
      simpa [stop] using running
    refine ⟨entries, fun stop => .inl (seen.passed (quiet stop)), .inl seen.length, ?_⟩
    rintro stop ⟨answer, hanswer, bad⟩
    have noticed := seen.noticed answer (by simpa using hanswer) bad
    simp [quiet stop] at noticed

end AcojWorker.StandardMode
