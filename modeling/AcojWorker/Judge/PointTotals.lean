import AcojWorker.Judge.BatchNames
import AcojWorker.Judge.CaseByCase
import AcojWorker.Judge.StandardRuns
import AcojWorker.Judge.StandardVerdict

/-!
# Reported points and the score

The score of a submission is the sum of the points of its accepted cases. The points reported
over all cases add up to it if the other cases report none. The modes that judge case by case
report what a case has earned; a failed batch is reported without points. In the STANDARD mode
a case outside the batches keeps the points it declares, whatever its result.
-/

namespace AcojWorker

open Python Effect

/-! ### Sums of points -/

section Sums

variable {π : Type} {num : π → Except Exc ℚ} {cases cases' : List (CaseResult π)}
  {c : CaseResult π} {q : ℚ}

theorem foldlM_points {start : ℚ} :
    cases.foldlM (fun sum c => (sum + ·) <$> num c.points) start = .ok q ↔
      ∃ r, sumPoints num cases = .ok r ∧ q = start + r := by
  rw [sumPoints]
  suffices shift : ∀ a b : ℚ, cases.foldlM (fun sum c => (sum + ·) <$> num c.points) (a + b) =
      (a + ·) <$> cases.foldlM (fun sum c => (sum + ·) <$> num c.points) b by
    rw [← add_zero start, shift, add_zero]
    cases cases.foldlM (fun sum c => (sum + ·) <$> num c.points) (0 : ℚ) with
    | error e =>
        constructor
        · rintro ⟨⟩
        · rintro ⟨_, ⟨⟩, _⟩
    | ok r =>
        constructor
        · rintro ⟨⟩
          exact ⟨r, rfl, rfl⟩
        · rintro ⟨_, ⟨⟩, rfl⟩
          rfl
  intro a b
  induction cases generalizing b with
  | nil => rfl
  | cons c cs ih =>
      rw [List.foldlM_cons, List.foldlM_cons]
      cases num c.points with
      | error e => rfl
      | ok p =>
          change cs.foldlM _ (a + b + p) = _
          rw [add_assoc]
          exact ih (b + p)

theorem sumPoints_cons :
    sumPoints num (c :: cases) = .ok q ↔
      ∃ p r, num c.points = .ok p ∧ sumPoints num cases = .ok r ∧ q = p + r := by
  rw [sumPoints, List.foldlM_cons]
  cases num c.points with
  | error e =>
      constructor
      · rintro ⟨⟩
      · rintro ⟨_, _, ⟨⟩, _⟩
  | ok p =>
      change cases.foldlM _ (0 + p) = _ ↔ _
      rw [zero_add, foldlM_points]
      constructor
      · rintro ⟨r, hr, rfl⟩
        exact ⟨p, r, rfl, hr, rfl⟩
      · rintro ⟨_, r, ⟨⟩, hr, rfl⟩
        exact ⟨r, hr, rfl⟩

theorem sumPoints_append :
    sumPoints num (cases ++ cases') = .ok q ↔
      ∃ a b, sumPoints num cases = .ok a ∧ sumPoints num cases' = .ok b ∧ q = a + b := by
  induction cases generalizing q with
  | nil =>
      constructor
      · intro h
        exact ⟨0, q, rfl, h, (zero_add q).symm⟩
      · rintro ⟨_, b, ⟨⟩, h, rfl⟩
        rwa [zero_add]
  | cons c cs ih =>
      rw [List.cons_append, sumPoints_cons]
      constructor
      · rintro ⟨p, r, hp, hr, rfl⟩
        obtain ⟨a, b, ha, hb, rfl⟩ := ih.mp hr
        exact ⟨p + a, b, sumPoints_cons.mpr ⟨p, a, hp, ha, rfl⟩, hb, (add_assoc ..).symm⟩
      · rintro ⟨_, b, h, hb, rfl⟩
        obtain ⟨p, a, hp, ha, rfl⟩ := sumPoints_cons.mp h
        exact ⟨p, a + b, hp, ih.mpr ⟨a, b, ha, hb, rfl⟩, add_assoc ..⟩

/-- The sum of some cases and the sum of the others. -/
theorem sumPoints_split (P : CaseResult π → Prop) [DecidablePred P] :
    sumPoints num cases = .ok q ↔
      ∃ a b, sumPoints num (cases.filter (P ·)) = .ok a ∧
        sumPoints num (cases.filter (¬ P ·)) = .ok b ∧ q = a + b := by
  induction cases generalizing q with
  | nil =>
      constructor
      · rintro ⟨⟩
        exact ⟨0, 0, rfl, rfl, (add_zero 0).symm⟩
      · rintro ⟨_, _, ⟨⟩, ⟨⟩, rfl⟩
        exact (congrArg Except.ok (add_zero (0 : ℚ))).symm
  | cons c cs ih =>
      rw [sumPoints_cons]
      by_cases hc : P c
      · rw [List.filter_cons_of_pos (by simpa using hc), List.filter_cons_of_neg (by simpa using hc)]
        constructor
        · rintro ⟨p, r, hp, hr, rfl⟩
          obtain ⟨a, b, ha, hb, rfl⟩ := ih.mp hr
          exact ⟨p + a, b, sumPoints_cons.mpr ⟨p, a, hp, ha, rfl⟩, hb, (add_assoc ..).symm⟩
        · rintro ⟨_, b, h, hb, rfl⟩
          obtain ⟨p, a, hp, ha, rfl⟩ := sumPoints_cons.mp h
          exact ⟨p, a + b, hp, ih.mpr ⟨a, b, ha, hb, rfl⟩, add_assoc ..⟩
      · rw [List.filter_cons_of_neg (by simpa using hc), List.filter_cons_of_pos (by simpa using hc)]
        constructor
        · rintro ⟨p, r, hp, hr, rfl⟩
          obtain ⟨a, b, ha, hb, rfl⟩ := ih.mp hr
          exact ⟨a, p + b, ha, sumPoints_cons.mpr ⟨p, b, hp, hb, rfl⟩, add_left_comm ..⟩
        · rintro ⟨a, _, ha, h, rfl⟩
          obtain ⟨p, b, hp, hb, rfl⟩ := sumPoints_cons.mp h
          exact ⟨p, a + b, hp, ih.mpr ⟨a, b, ha, hb, rfl⟩, add_left_comm ..⟩

theorem sumPoints_of {f : CaseResult π → ℚ} (worth : ∀ c ∈ cases, num c.points = .ok (f c)) :
    sumPoints num cases = .ok (cases.map f).sum := by
  induction cases with
  | nil => rfl
  | cons c cs ih =>
      rw [List.map_cons, List.sum_cons]
      exact sumPoints_cons.mpr ⟨_, _, worth c (List.mem_cons_self ..),
        ih fun d hd => worth d (List.mem_cons_of_mem _ hd), rfl⟩

theorem sumPoints_zero (zero : ∀ c ∈ cases, num c.points = .ok 0) :
    sumPoints num cases = .ok 0 := by
  rw [sumPoints_of (f := fun _ => 0) zero]
  simp

/-- Cases that earned nothing and report nothing do not count. -/
theorem sumPoints_accepted (failed : ∀ c ∈ cases, c.result ≠ .AC → num c.points = .ok 0) :
    sumPoints num cases = .ok q ↔ sumPoints num (cases.filter fun c => c.result = .AC) = .ok q := by
  have rest : sumPoints num (cases.filter fun c => ¬ c.result = .AC) = .ok 0 := by
    apply sumPoints_zero
    intro c hc
    obtain ⟨mem, hresult⟩ := List.mem_filter.mp hc
    exact failed c mem (of_decide_eq_true hresult)
  rw [sumPoints_split fun c => c.result = .AC]
  constructor
  · rintro ⟨a, b, ha, hb, rfl⟩
    cases rest.symm.trans hb
    rwa [add_zero]
  · intro h
    exact ⟨q, 0, h, rest, (add_zero q).symm⟩

end Sums

/-! ### Batches -/

section Batches

variable {β π : Type} [DecidableEq β] [Zero π] {num : π → Except Exc ℚ}

/-- The total is what the accepted ones among the returned cases are worth. -/
def Totals (num : π → Except Exc ℚ) (scored : List (CaseResult π) × ℚ) : Prop :=
  sumPoints num (scored.1.filter fun c => c.result = .AC) = .ok scored.2

omit [DecidableEq β] [Zero π] in
theorem totals_nil : Totals num ([], 0) := rfl

omit [DecidableEq β] [Zero π] in
theorem Totals.append {scored : List (CaseResult π) × ℚ} (before : Totals num scored)
    {cases : List (CaseResult π)} {q : ℚ}
    (added : sumPoints num (cases.filter fun c => c.result = .AC) = .ok q) :
    Totals num (scored.1 ++ cases, scored.2 + q) := by
  rw [Totals, List.filter_append]
  exact sumPoints_append.mpr ⟨scored.2, q, before, added, rfl⟩

omit [DecidableEq β] [Zero π] in
theorem scoreCase_totals {scored scored' : List (CaseResult π) × ℚ} {c : CaseResult π}
    (before : Totals num scored) (h : scoreCase num scored c = .ok scored') :
    Totals num scored' := by
  rw [scoreCase] at h
  split at h
  · next earned =>
    obtain ⟨points, hpoints, h⟩ := bind_eq_ok.mp h
    cases h
    apply before.append
    rw [List.filter_cons_of_pos (by simpa using earned)]
    exact sumPoints_cons.mpr ⟨points, 0, hpoints, rfl, (add_zero points).symm⟩
  · next lost =>
    cases h
    rw [← add_zero scored.2]
    apply before.append
    rw [List.filter_cons_of_neg (by simpa using lost)]
    rfl

omit [DecidableEq β] in
theorem scoreBatch_totals (zero : num 0 = .ok 0) {batchAc : BatchStatus β} {bn : Option β}
    {batchCases : List (CaseResult π)} {scored scored' : List (CaseResult π) × ℚ}
    (sound : ∀ b, bn = some b → (batchAc b).getD true = true → ∀ c ∈ batchCases, c.result = .AC)
    (before : Totals num scored)
    (h : scoreBatch num batchAc bn batchCases scored = .ok scored') : Totals num scored' := by
  cases bn with
  | none =>
      have h : batchCases.foldlM (scoreCase num) scored = .ok scored' := h
      clear sound
      induction batchCases generalizing scored with
      | nil =>
          cases h
          exact before
      | cons c cs ih =>
          rw [List.foldlM_cons] at h
          obtain ⟨next, step, rest⟩ := bind_eq_ok.mp h
          exact ih (scoreCase_totals before step) rest rest
  | some b =>
      rw [scoreBatch] at h
      split at h
      · next passed =>
        obtain ⟨points, hpoints, h⟩ := bind_eq_ok.mp h
        cases h
        apply before.append
        rw [List.filter_eq_self.mpr fun c hc => decide_eq_true (sound b rfl passed c hc)]
        exact hpoints
      · cases h
        rw [← add_zero scored.2]
        apply before.append
        apply sumPoints_zero
        intro c hc
        obtain ⟨d, _, rfl⟩ := List.mem_map.mp (List.mem_filter.mp hc).1
        exact zero

omit [DecidableEq β] in
theorem foldlM_scoreBatch_totals (zero : num 0 = .ok 0) {batchAc : BatchStatus β}
    {members : Option β → List (CaseResult π)} {order : List (Option β)}
    {scored scored' : List (CaseResult π) × ℚ}
    (sound : ∀ b, some b ∈ order → (batchAc b).getD true = true →
      ∀ c ∈ members (some b), c.result = .AC)
    (before : Totals num scored)
    (h : order.foldlM (fun acc bn => scoreBatch num batchAc bn (members bn) acc) scored =
      .ok scored') : Totals num scored' := by
  induction order generalizing scored with
  | nil =>
      cases h
      exact before
  | cons bn order ih =>
      rw [List.foldlM_cons] at h
      obtain ⟨next, step, rest⟩ := bind_eq_ok.mp h
      refine ih (fun b hb => sound b (List.mem_cons_of_mem _ hb)) ?_ rest
      refine scoreBatch_totals zero ?_ before step
      rintro b rfl
      exact sound b (List.mem_cons_self ..)

/-- What batch scoring returns adds up, whatever the failed cases are worth. -/
theorem aggregateBatches_totals (zero : num 0 = .ok 0) {raw : List (CaseResult π)}
    {tcs : List (BatchInfo β)} {scored : List (CaseResult π) × ℚ}
    (h : aggregateBatches num raw tcs = .ok scored) : Totals num scored := by
  simp only [aggregateBatches, zip_marked, group_marked, order_marked] at h
  exact foldlM_scoreBatch_totals zero (fun b hb => accepted_of_passed hb) totals_nil h

end Batches

/-- A result reports the points its cases have earned. -/
structure PaysEarned (r : JudgeResult Value) : Prop where
  total : sumPoints Value.number r.cases = .ok r.score
  failed : ∀ c ∈ r.cases, c.result ≠ .AC → c.points.number = .ok 0

theorem paysEarned_iff {r : JudgeResult Value} :
    PaysEarned r ↔ sumPoints Value.number r.cases = .ok r.score ∧
      ∀ c ∈ r.cases, c.result ≠ .AC → c.points.number = .ok 0 :=
  ⟨fun pays => ⟨pays.total, pays.failed⟩, fun pays => ⟨pays.1, pays.2⟩⟩

/-! ### Case by case -/

theorem sum_shares (points : ℚ) (cases : List (CaseResult Value)) :
    (cases.map fun c => if c.result = .AC then points else 0).sum = points * accepted cases := by
  induction cases with
  | nil => simp [accepted]
  | cons c cs ih =>
      rw [List.map_cons, List.sum_cons, ih, accepted, accepted, List.countP_cons]
      by_cases hc : c.result = .AC
      · simp [hc, mul_add, add_comm]
      · simp [hc]

theorem Tally.Reflects.paysEarned {tally : Tally} {points : ℚ} {tests : List Value}
    (h : tally.Reflects points tests) (submissionId : Value) (verdict : Verdict) :
    PaysEarned (tally.result submissionId verdict) := by
  have worth : ∀ c ∈ tally.cases, c.points.number =
      .ok (if c.result = .AC then points else 0) := by
    intro c hc
    rw [h.worth c hc]
    rfl
  constructor
  · change sumPoints Value.number tally.cases = .ok tally.totalScore
    rw [h.score, ← sum_shares]
    exact sumPoints_of worth
  · intro c hc lost
    rw [worth c hc, if_neg lost]

/-! ### The cases the sandbox answers for -/

namespace StandardMode

variable {stopOnFirst : Bool} {tests : List Value} {answers : List CaseAnswer}

/-- The case is accepted. -/
def accepts (answer : CaseAnswer) : Bool :=
  match caseVerdict answer with
  | .ok verdict => verdict = .AC
  | .error _ => false

/-- The points a test case declares. -/
def declaredWorth (tcMeta : Value) : Except Exc ℚ := do
  (← tcMeta.get "points" (.int 0)).number

/-- The test case belongs to no batch. -/
def batchless (tcMeta : Value) : Bool :=
  match tcMeta.get "batch_no" .none with
  | .ok .none => true
  | _ => false

/-- The test cases that are judged, with their answers: all, or those up to the first failure. -/
def judgedCases (stopOnFirst : Bool) : List Value → List CaseAnswer → List (Value × CaseAnswer)
  | _, [] => []
  | tests, answer :: answers =>
      (tests.headD (.dict []), answer) ::
        if stopOnFirst && !accepts answer then [] else judgedCases stopOnFirst tests.tail answers

/-- The declared points of some test cases together. -/
def declaredTotal (cases : List (Value × CaseAnswer)) : Except Exc ℚ :=
  cases.foldlM (fun sum x => (sum + ·) <$> declaredWorth x.1) 0

/-- Whatever is judged and not accepted, outside the batches, is worth nothing; and where the
program does not compile and no batches are scored, what is accepted is worth nothing. -/
structure EarnsDeclared (stopOnFirst hasBatch hasCe : Bool) (tests : List Value)
    (answers : List CaseAnswer) : Prop where
  failed : ∀ x ∈ judgedCases stopOnFirst tests answers, accepts x.2 = false →
    (hasBatch = true → batchless x.1 = true) → declaredWorth x.1 = .ok 0
  uncompiled : hasBatch = false → hasCe = true →
    declaredTotal ((judgedCases stopOnFirst tests answers).filter fun x => accepts x.2) = .ok 0

/-- The result of a test case that was judged. -/
def Ran (x : Value × CaseAnswer) (c : CaseResult Value) : Prop :=
  caseVerdict x.2 = .ok c.result ∧ x.1.get "points" (.int 0) = .ok c.points

/-- The result of a test case that was not. -/
def IsSkipped (c : CaseResult Value) : Prop := c.result = .SKIPPED ∧ c.points = .int 0

theorem Ran.accepts {x : Value × CaseAnswer} {c : CaseResult Value} (ran : Ran x c) :
    accepts x.2 = true ↔ c.result = .AC := by
  rw [StandardMode.accepts, ran.1]
  exact decide_eq_true_iff

theorem Ran.worth {x : Value × CaseAnswer} {c : CaseResult Value} (ran : Ran x c) :
    declaredWorth x.1 = c.points.number := by
  rw [declaredWorth, ran.2]
  rfl

/-- After the first failure every case is skipped. -/
theorem foldlM_judgeCase_stopped {progress progress' : Progress}
    (stopped : stopOnFirst = true ∧ progress.hadFailure = true)
    (loop : answers.foldlM (judgeCase stopOnFirst tests) progress = .ok progress') :
    ∃ skipped, progress'.results = progress.results ++ skipped ∧ ∀ c ∈ skipped, IsSkipped c := by
  induction answers generalizing progress with
  | nil =>
      cases loop
      exact ⟨[], (List.append_nil _).symm, nofun⟩
  | cons answer answers ih =>
      rw [List.foldlM_cons] at loop
      obtain ⟨next, step, rest⟩ := bind_eq_ok.mp loop
      obtain ⟨caseNo, _, ⟨stop, failed, rfl⟩ | ⟨_, _, running, _⟩⟩ := judgeCase_cases step
      · obtain ⟨skipped, hskipped, all⟩ := ih ⟨stop, rfl⟩ rest
        refine ⟨skippedResult caseNo :: skipped, by simp [hskipped], ?_⟩
        intro c hc
        obtain rfl | hc := List.mem_cons.mp hc
        · exact ⟨rfl, rfl⟩
        · exact all c hc
      · exact absurd stopped running

/-- The results of the loop are those of the judged cases, and then skipped ones. -/
theorem foldlM_judgeCase_ran {progress progress' : Progress}
    (running : ¬ (stopOnFirst = true ∧ progress.hadFailure = true))
    (loop : answers.foldlM (judgeCase stopOnFirst tests) progress = .ok progress') :
    ∃ ran skipped, progress'.results = progress.results ++ (ran ++ skipped) ∧
      List.Forall₂ Ran (judgedCases stopOnFirst (tests.drop progress.results.length) answers) ran ∧
      (∀ c ∈ skipped, IsSkipped c) ∧ (stopOnFirst = false → skipped = []) := by
  induction answers generalizing progress with
  | nil =>
      cases loop
      exact ⟨[], [], (List.append_nil _).symm, .nil, nofun, fun _ => rfl⟩
  | cons answer answers ih =>
      rw [List.foldlM_cons] at loop
      obtain ⟨next, step, rest⟩ := bind_eq_ok.mp loop
      obtain ⟨caseNo, _, ⟨stop, failed, _⟩ | ⟨verdict, c, _, hverdict, hc, rfl⟩⟩ :=
        judgeCase_cases step
      · exact absurd ⟨stop, failed⟩ running
      have head : (tests.drop progress.results.length).headD (.dict []) =
          caseMeta tests progress.results.length := by
        rw [caseMeta, List.getD_eq_getElem?_getD, List.headD_eq_head?_getD, List.head?_drop]
      obtain ⟨-, hresult, hpoints⟩ := caseResult_result hc
      have ran : Ran ((tests.drop progress.results.length).headD (.dict []), answer) c :=
        ⟨hresult ▸ hverdict, head ▸ hpoints⟩
      rw [judgedCases]
      by_cases stops : stopOnFirst = true ∧ verdict ≠ .AC
      · obtain ⟨skipped, hskipped, all⟩ :=
          foldlM_judgeCase_stopped ⟨stops.1, by simp [stops.2]⟩ rest
        refine ⟨[c], skipped, by simp [hskipped], ?_, all, fun off => absurd stops.1 (by simp [off])⟩
        have failed : accepts answer = false := by
          rw [Bool.eq_false_iff, ne_eq, ran.accepts, hresult]
          exact stops.2
        rw [failed, stops.1]
        exact .cons ran .nil
      · obtain ⟨more, skipped, hmore, all, skips, complete⟩ := ih (by
          rintro ⟨stop, failed⟩
          obtain before | now := Bool.or_eq_true_iff.mp failed
          · exact running ⟨stop, before⟩
          · exact stops ⟨stop, by simpa using now⟩) rest
        refine ⟨c :: more, skipped, by simp [hmore], ?_, skips, complete⟩
        have goes_on : (stopOnFirst && !accepts answer) = false := by
          rw [Bool.and_eq_false_iff, Bool.not_eq_false', ran.accepts, hresult]
          by_contra both
          rw [not_or] at both
          exact stops ⟨by simpa using both.1, both.2⟩
        rw [goes_on, List.tail_drop]
        rw [List.length_append] at all
        exact .cons ran all

/-- The raw results of a request. -/
theorem raw_ran {progress : Progress} {raw : List (CaseResult Value)}
    (loop : answers.foldlM (judgeCase stopOnFirst tests) ⟨[], false⟩ = .ok progress)
    (padded : padSkipped stopOnFirst tests progress = .ok raw) :
    ∃ ran skipped, raw = ran ++ skipped ∧
      List.Forall₂ Ran (judgedCases stopOnFirst tests answers) ran ∧
      (∀ c ∈ skipped, IsSkipped c) ∧ (stopOnFirst = false → skipped = []) := by
  obtain ⟨ran, skipped, hresults, all, skips, complete⟩ :=
    foldlM_judgeCase_ran (by simp) loop
  rw [padSkipped] at padded
  split at padded
  · next stopped =>
    have stop := (Bool.and_eq_true_iff.mp stopped).1
    obtain ⟨missing, padding, padded⟩ := bind_eq_ok.mp padded
    cases padded
    refine ⟨ran, skipped ++ missing, ?_, all, ?_, fun off => absurd stop (by simp [off])⟩
    · rw [hresults]
      simp
    · intro c hc
      obtain hc | hc := List.mem_append.mp hc
      · exact skips c hc
      · obtain ⟨tc, _, made⟩ := forall₂_mem (mapM_forall₂ padding) c hc
        obtain ⟨caseNo, _, made⟩ := bind_eq_ok.mp made
        cases made
        exact ⟨rfl, rfl⟩
  · cases padded
    exact ⟨ran, skipped, hresults, all, skips, complete⟩

/-! ### Without batches -/

theorem IsSkipped.zero {c : CaseResult Value} (skipped : IsSkipped c) :
    c.result ≠ .AC ∧ c.points.number = .ok 0 := by
  rw [skipped.1, skipped.2]
  exact ⟨nofun, rfl⟩

/-- Failed cases report nothing exactly if they declare nothing. -/
theorem failed_iff {xs : List (Value × CaseAnswer)} {ran : List (CaseResult Value)}
    (all : List.Forall₂ Ran xs ran) :
    (∀ c ∈ ran, c.result ≠ .AC → c.points.number = .ok 0) ↔
      ∀ x ∈ xs, accepts x.2 = false → declaredWorth x.1 = .ok 0 := by
  induction all with
  | nil => simp
  | cons ran _ ih =>
      rw [List.forall_mem_cons, List.forall_mem_cons, ih, ran.worth, Bool.eq_false_iff, ne_eq,
        ne_eq, ran.accepts]

theorem sumPoints_ran {xs : List (Value × CaseAnswer)} {ran : List (CaseResult Value)}
    (all : List.Forall₂ Ran xs ran) :
    sumPoints Value.number (ran.filter fun c => c.result = .AC) =
      declaredTotal (xs.filter fun x => accepts x.2) := by
  rw [sumPoints, declaredTotal]
  generalize (0 : ℚ) = start
  induction all generalizing start with
  | nil => rfl
  | @cons x c xs cs ran _ ih =>
      by_cases hc : c.result = .AC
      · rw [List.filter_cons_of_pos (by simpa using hc),
          List.filter_cons_of_pos (p := fun x : Value × CaseAnswer => accepts x.2)
            (ran.accepts.mpr hc), List.foldlM_cons, List.foldlM_cons, ran.worth]
        exact congrArg _ (funext ih)
      · rw [List.filter_cons_of_neg (by simpa using hc),
          List.filter_cons_of_neg (p := fun x : Value × CaseAnswer => accepts x.2)
            (fun accepted => hc (ran.accepts.mp accepted)), ih]

theorem unbatched_paysEarned {raw : List (CaseResult Value)} {hasCe : Bool}
    {ran skipped : List (CaseResult Value)} {total : ℚ} (split : raw = ran ++ skipped)
    (all : List.Forall₂ Ran (judgedCases stopOnFirst tests answers) ran)
    (skips : ∀ c ∈ skipped, IsSkipped c)
    (scored : score false hasCe tests raw = .ok (raw, total)) :
    (sumPoints Value.number raw = .ok total ∧
        ∀ c ∈ raw, c.result ≠ .AC → c.points.number = .ok 0) ↔
      EarnsDeclared stopOnFirst false hasCe tests answers := by
  have failed : (∀ c ∈ raw, c.result ≠ .AC → c.points.number = .ok 0) ↔
      ∀ x ∈ judgedCases stopOnFirst tests answers, accepts x.2 = false →
        declaredWorth x.1 = .ok 0 := by
    rw [split, List.forall_mem_append, ← failed_iff all]
    exact and_iff_left fun c hc _ => (skips c hc).zero.2
  have none_skipped : raw.filter (fun c => c.result = .AC) = ran.filter fun c => c.result = .AC := by
    have nothing : skipped.filter (fun c => c.result = .AC) = [] := by
      rw [List.filter_eq_nil_iff]
      exact fun c hc accepted => (skips c hc).zero.1 (of_decide_eq_true accepted)
    rw [split, List.filter_append, nothing, List.append_nil]
  have earned := sumPoints_ran all
  rw [← none_skipped] at earned
  rw [score, if_neg (by simp)] at scored
  split at scored
  · next uncompiled =>
    cases scored
    constructor
    · rintro ⟨sum, zero⟩
      refine ⟨fun x hx lost _ => failed.mp zero x hx lost, fun _ _ => ?_⟩
      rw [← earned]
      exact (sumPoints_accepted zero).mp sum
    · intro earns
      have zero := failed.mpr fun x hx lost => earns.failed x hx lost (by simp)
      refine ⟨(sumPoints_accepted zero).mpr ?_, zero⟩
      rw [earned]
      exact earns.uncompiled rfl uncompiled
  · next compiled =>
    obtain ⟨sum, summed, scored⟩ := bind_eq_ok.mp scored
    cases scored
    constructor
    · rintro ⟨_, zero⟩
      exact ⟨fun x hx lost _ => failed.mp zero x hx lost, fun _ ce => absurd ce compiled⟩
    · intro earns
      have zero := failed.mpr fun x hx lost => earns.failed x hx lost (by simp)
      exact ⟨(sumPoints_accepted zero).mpr summed, zero⟩

/-! ### With batches -/

theorem batchInfo_batchless {tc : Value} {info : BatchInfo Key} (read : batchInfo tc = .ok info) :
    info.batchNo = none ↔ batchless tc = true := by
  obtain ⟨batchNo, hbatchNo, rest⟩ := bind_eq_ok.mp read
  rw [batchless, hbatchNo]
  by_cases unnumbered : batchNo = .none
  · subst unnumbered
    cases rest
    exact ⟨fun _ => rfl, fun _ => rfl⟩
  · rw [batchInfo_numbered hbatchNo unnumbered] at read
    obtain ⟨key, _, read⟩ := bind_eq_ok.mp read
    obtain ⟨declared, _, read⟩ := bind_eq_ok.mp read
    have numbered : info.batchNo = some key := by
      dsimp only at read
      split at read <;> obtain ⟨dependencies, _, read⟩ := bind_eq_ok.mp read <;> cases read <;> rfl
    rw [numbered]
    cases batchNo with
    | none => exact absurd rfl unnumbered
    | _ => exact ⟨nofun, nofun⟩

theorem judgedCases_nil {x : Value × CaseAnswer} (hx : x ∈ judgedCases stopOnFirst [] answers) :
    x.1 = .dict [] := by
  induction answers with
  | nil => cases hx
  | cons answer answers ih =>
      rw [judgedCases] at hx
      obtain rfl | hx := List.mem_cons.mp hx
      · rfl
      · split at hx
        · cases hx
        · exact ih hx

/-- Of the cases outside the batches the failed ones report nothing exactly if they declare
nothing. -/
theorem batchless_failed_iff {infos : List (BatchInfo Key)} {raw : List (CaseResult Value)}
    (all : List.Forall₂ Ran (judgedCases false tests answers) raw)
    (read : (tests.take raw.length).mapM batchInfo = .ok infos) :
    (∀ x ∈ infos.zip raw, x.1.batchNo = none → x.2.result ≠ .AC → x.2.points.number = .ok 0) ↔
      ∀ x ∈ judgedCases false tests answers, accepts x.2 = false → batchless x.1 = true →
        declaredWorth x.1 = .ok 0 := by
  induction answers generalizing tests infos raw with
  | nil =>
      cases all
      simp [judgedCases]
  | cons answer answers ih =>
      obtain ⟨c, cs, ran, others, rfl⟩ := List.forall₂_cons_left_iff.mp all
      cases tests with
      | nil =>
          have none : infos = [] := (Except.ok.inj read).symm
          subst none
          have free : ∀ x ∈ judgedCases false [] (answer :: answers), declaredWorth x.1 = .ok 0 := by
            intro x hx
            rw [judgedCases_nil hx]
            rfl
          simp only [List.zip_nil_left, List.not_mem_nil, false_imp_iff, implies_true, true_iff]
          exact fun x hx _ _ => free x hx
      | cons tc tests =>
          rw [List.length_cons, List.take_succ_cons, List.mapM_cons] at read
          obtain ⟨info, hinfo, read⟩ := bind_eq_ok.mp read
          obtain ⟨more, hmore, read⟩ := bind_eq_ok.mp read
          cases read
          have ran : Ran (tc, answer) c := ran
          have head : (info.batchNo = none → c.result ≠ .AC → c.points.number = .ok 0) ↔
              (accepts answer = false → batchless tc = true → declaredWorth tc = .ok 0) := by
            rw [batchInfo_batchless hinfo, ← ran.worth, ne_eq, ← ran.accepts, Bool.not_eq_true]
            exact ⟨fun h a b => h b a, fun h a b => h b a⟩
          rw [List.zip_cons_cons, List.forall_mem_cons, head, ih others hmore, judgedCases,
            List.forall_mem_cons]
          rfl

theorem batched_paysEarned {raw cases : List (CaseResult Value)} {hasCe : Bool} {total : ℚ}
    (all : List.Forall₂ Ran (judgedCases false tests answers) raw)
    (scored : score true hasCe tests raw = .ok (cases, total)) :
    (sumPoints Value.number cases = .ok total ∧
        ∀ c ∈ cases, c.result ≠ .AC → c.points.number = .ok 0) ↔
      EarnsDeclared false true hasCe tests answers := by
  rw [score, if_pos rfl] at scored
  obtain ⟨infos, read, scored⟩ := bind_eq_ok.mp scored
  have totals : Totals Value.number (cases, total) := 
    aggregateBatches_totals (show Value.number 0 = .ok 0 from rfl) scored
  have failed : (∀ c ∈ cases, c.result ≠ .AC → c.points.number = .ok 0) ↔
      ∀ x ∈ judgedCases false tests answers, accepts x.2 = false → batchless x.1 = true →
        declaredWorth x.1 = .ok 0 := by
    rw [aggregateBatches_cases scored, List.forall_mem_map, ← batchless_failed_iff all read]
    simp only [(RawCases.layout_perm (infos.zip raw)).mem_iff]
    refine forall₂_congr fun x hx => ?_
    rw [RawCases.reported]
    cases hbn : x.1.batchNo with
    | none => simp
    | some b =>
        simp only [reduceCtorEq, false_imp_iff, iff_true]
        by_cases fails : RawCases.DependencyFails (infos.zip raw) x.1
        · rw [if_pos fails]
          exact fun _ => rfl
        · rw [if_neg fails]
          by_cases earns : RawCases.Earns (infos.zip raw) b
          · rw [if_pos earns]
            exact fun lost => absurd (earns.1 x hx hbn) lost
          · rw [if_neg earns]
            exact fun _ => rfl
  constructor
  · rintro ⟨_, zero⟩
    exact ⟨fun x hx lost outside => failed.mp zero x hx lost (outside rfl), by simp⟩
  · intro earns
    have zero := failed.mpr fun x hx lost outside => earns.failed x hx lost fun _ => outside
    exact ⟨(sumPoints_accepted zero).mpr totals, zero⟩

/-! ### Whole runs -/

theorem assemble_paysEarned {submissionId problem : Value} {hasBatch : Bool} {batch : BatchAnswer}
    {r : JudgeResult Value} (batched : hasBatch = true → stopOnFirst = false)
    (assembled : assemble submissionId problem tests stopOnFirst hasBatch batch = .ok r) :
    PaysEarned r ↔
      EarnsDeclared stopOnFirst hasBatch (batch.compile.status ≠ .AC) tests batch.cases := by
  obtain ⟨progress, loop, assembled⟩ := bind_eq_ok.mp assembled
  obtain ⟨raw, padded, assembled⟩ := bind_eq_ok.mp assembled
  obtain ⟨⟨cases, total⟩, scored, assembled⟩ := bind_eq_ok.mp assembled
  obtain ⟨verdict, _, assembled⟩ := bind_eq_ok.mp assembled
  cases assembled
  obtain ⟨ran, skipped, split, all, skips, complete⟩ := raw_ran loop padded
  rw [paysEarned_iff]
  cases hasBatch with
  | true =>
      obtain rfl := batched rfl
      obtain rfl := complete rfl
      rw [List.append_nil] at split
      exact batched_paysEarned (split ▸ all) scored
  | false =>
      obtain rfl := score_unbatched scored
      exact unbatched_paysEarned split all skips scored

end StandardMode

/-- The modes that judge case by case report what was earned, and nothing else. The STANDARD
mode does exactly if every case that ran, failed and belongs to no batch declares no points, and,
where the program did not compile and there are no batches, neither do the accepted cases
together. -/
theorem points_add_up {σ : Type} (h : World σ) (payload : Value) (s s' : σ) (r : JudgeResult Value) :
    (∀ mode : CaseMode, (mode.judge payload).run h s = (.ok r, s') → r.status = .COMPLETED →
      PaysEarned r) ∧
    ((StandardMode.judge payload).run h s = (.ok r, s') → r.status = .COMPLETED →
      ∃ submissionId problem tests stopOnFirst hasBatch request batch t t',
        StandardMode.Asked payload submissionId problem tests stopOnFirst hasBatch request ∧
        h (.runCases request) t = (.ok batch, t') ∧
        (PaysEarned r ↔ StandardMode.EarnsDeclared stopOnFirst hasBatch
          (batch.compile.status ≠ .AC) tests batch.cases)) := by
  constructor
  · intro mode run completed
    obtain ⟨submissionId, problem, tests, points, tally, rounds, rfl⟩ :=
      (ensures_judge mode payload s r s' run).completed completed
    exact rounds.reflects.paysEarned submissionId _
  · intro run completed
    obtain ⟨submissionId, problem, tests, _, _, _, ⟨_, rfl⟩ |
      ⟨stopOnFirst, hasBatch, request, batch, t, t', asked, answered, assembled⟩⟩ :=
      StandardMode.ensures_answered payload s r s' run
    · cases completed
    have batched : hasBatch = true → stopOnFirst = false := by
      rintro rfl
      obtain ⟨partialScore, _, rfl⟩ := asked.strategy
      simp
    exact ⟨submissionId, problem, tests, stopOnFirst, hasBatch, request, batch, t, t', asked,
      answered, StandardMode.assemble_paysEarned batched assembled⟩

/-! ### One case worth fifty points -/

section FreeCase

open StandardMode

/-- A wrong answer is reported with fifty points, and the score is zero. -/
theorem points_exceed_score :
    ¬ ∀ (payload : Value) (h : World Unit) s r s', (StandardMode.judge payload).run h s = (.ok r, s') →
      r.status = .COMPLETED → sumPoints Value.number r.cases = .ok r.score := by
  intro add_up
  obtain ⟨r, s', run, outcome⟩ := Program.run_of_map (scriptOf [printed "2"]).world
    (p := StandardMode.judge (requestWorth 100 true [freeCase])) (s := ())
    (f := fun r => (r.status, (sumPoints Value.number r.cases).toOption, r.score))
    (b := (.COMPLETED, some 50, 0)) (by decide +kernel)
  simp only [Prod.mk.injEq] at outcome
  obtain ⟨completed, points, score⟩ := outcome
  rw [add_up _ _ _ r s' run completed, score] at points
  exact absurd points (by decide)

/-- An accepted case is reported with what it has earned. -/
theorem points_add_up_accepted : ∃ r : JudgeResult Value, r.score = 50 ∧ PaysEarned r := by
  obtain ⟨r, s', run, outcome⟩ := Program.run_of_map (scriptOf [printed "1"]).world
    (p := StandardMode.judge (requestWorth 100 true [freeCase])) (s := ())
    (f := fun r => (r.status, r.score)) (b := (.COMPLETED, 50)) (by decide +kernel)
  simp only [Prod.mk.injEq] at outcome
  obtain ⟨completed, score⟩ := outcome
  obtain ⟨submissionId, problem, tests, stopOnFirst, hasBatch, request, batch, t, t', asked,
    answered, pays⟩ := (points_add_up _ _ _ _ _).2 run completed
  refine ⟨r, score, pays.mpr ?_⟩
  cases answered
  obtain rfl : tests = [freeCase] := (Except.ok.inj asked.readTests).symm
  obtain rfl : hasBatch = false := (Except.ok.inj asked.readBatches).symm
  have passed : accepts (printed "1") = true := by decide +kernel
  have judged : judgedCases stopOnFirst [freeCase] [printed "1"] = [(freeCase, printed "1")] := by
    rw [judgedCases, judgedCases, ite_self]
    rfl
  refine ⟨fun x hx lost => ?_, fun _ uncompiled => ?_⟩
  · have hx : x ∈ judgedCases stopOnFirst [freeCase] [printed "1"] := hx
    rw [judged, List.mem_singleton] at hx
    rw [hx, passed] at lost
    cases lost
  · exact absurd rfl (of_decide_eq_true uncompiled)

end FreeCase

end AcojWorker
