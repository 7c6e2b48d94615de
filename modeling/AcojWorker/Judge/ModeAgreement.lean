import AcojWorker.Judge.PointTotals

/-!
# One submission in three modes

Without batches and with partial scores, the STANDARD mode adds up the points that the accepted
cases declare. The two modes that judge case by case do not read declared points: they give
every accepted case the same share of the points of the problem. The scores agree where the
accepted cases happen to declare their shares.
-/

namespace AcojWorker

open Python Effect

/-- The declared points of the accepted cases. -/
def earnedPoints (declared : List ℚ) (outcomes : List Bool) : ℚ :=
  ((declared.zip outcomes).map fun x => if x.2 then x.1 else 0).sum

/-- Which cases of a result are accepted. -/
def JudgeResult.outcomes (r : JudgeResult Value) : List Bool :=
  r.cases.map fun c => c.result = .AC

/-- A completed result of a mode for a problem and its test cases, with these outcomes of a
program that compiles. -/
def JudgedAs (judge : Value → Judging (JudgeResult Value)) (problem : Value) (tests : List Value)
    (outcomes : List Bool) (r : JudgeResult Value) : Prop :=
  ∃ (σ : Type) (h : World σ) (payload : Value) (s s' : σ),
    payload.item "problem" = .ok problem ∧
    (payload.item "test_cases" >>= Value.elements) = .ok tests ∧
    (judge payload).run h s = (.ok r, s') ∧
    r.status = .COMPLETED ∧ r.compileError = false ∧ r.outcomes = outcomes

/-! ### Sums over outcomes -/

theorem earnedPoints_cons (p : ℚ) (declared : List ℚ) (outcome : Bool) (outcomes : List Bool) :
    earnedPoints (p :: declared) (outcome :: outcomes) =
      (if outcome then p else 0) + earnedPoints declared outcomes := by
  rw [earnedPoints, List.zip_cons_cons, List.map_cons, List.sum_cons]
  rfl

/-- If all cases declare the same points, each accepted one earns them. -/
theorem earnedPoints_share {share : ℚ} {declared : List ℚ} {outcomes : List Bool}
    (same : ∀ p ∈ declared, p = share) (length : outcomes.length = declared.length) :
    earnedPoints declared outcomes = share * outcomes.count true := by
  induction declared generalizing outcomes with
  | nil =>
      rw [List.length_eq_zero_iff.mp length]
      simp [earnedPoints]
  | cons p declared ih =>
      obtain ⟨outcome, outcomes, rfl⟩ := List.exists_cons_of_length_eq_add_one length
      have length : outcomes.length = declared.length := by simpa using length
      rw [earnedPoints_cons, ih (fun q hq => same q (List.mem_cons_of_mem _ hq)) length,
        same p (List.mem_cons_self ..)]
      cases outcome with
      | false => simp
      | true =>
          rw [List.count_cons_self, if_pos rfl]
          push_cast
          ring

theorem earnedPoints_none (declared : List ℚ) (n : ℕ) :
    earnedPoints declared (List.replicate n false) = 0 := by
  induction declared generalizing n with
  | nil => simp [earnedPoints]
  | cons p declared ih =>
      cases n with
      | zero => simp [earnedPoints]
      | succ n =>
          rw [List.replicate_succ, earnedPoints_cons, ih]
          simp

theorem earnedPoints_append {before after : List ℚ} {outcomes outcomes' : List Bool}
    (length : before.length = outcomes.length) :
    earnedPoints (before ++ after) (outcomes ++ outcomes') =
      earnedPoints before outcomes + earnedPoints after outcomes' := by
  rw [earnedPoints, List.zip_append length, List.map_append, List.sum_append]
  rfl

/-- The accepted cases earn their share under all outcomes exactly if every case declares it. -/
theorem earnedPoints_share_iff {share : ℚ} {declared : List ℚ} :
    (∀ outcomes : List Bool, outcomes.length = declared.length →
      earnedPoints declared outcomes = share * outcomes.count true) ↔
    ∀ p ∈ declared, p = share := by
  constructor
  · intro all p hp
    obtain ⟨before, after, rfl⟩ := List.append_of_mem hp
    -- only the case of `p` is accepted
    have single := all (List.replicate before.length false ++ true ::
      List.replicate after.length false) (by simp)
    rw [earnedPoints_append (by simp), earnedPoints_cons, earnedPoints_none,
      earnedPoints_none] at single
    simpa [List.count_replicate] using single
  · exact fun same outcomes length => earnedPoints_share same length

/-! ### The STANDARD mode -/

namespace StandardMode

theorem anyBatch_batchless {tests : List Value} (unbatched : ∀ tc ∈ tests, batchless tc = true) :
    anyBatch tests = .ok false := by
  induction tests with
  | nil => rfl
  | cons tc tests ih =>
      have none : tc.get "batch_no" .none = .ok .none := by
        have here := unbatched tc (List.mem_cons_self ..)
        rw [batchless] at here
        split at here
        · assumption
        · cases here
      rw [anyBatch, none]
      exact ih fun d hd => unbatched d (List.mem_cons_of_mem _ hd)

/-- What the accepted ones among the results are worth. -/
theorem sumPoints_declared {tests : List Value} {answers : List CaseAnswer} {declared : List ℚ}
    {raw : List (CaseResult Value)} (all : List.Forall₂ Ran (judgedCases false tests answers) raw)
    (declares : List.Forall₂ (fun tc p => declaredWorth tc = .ok p) tests declared)
    (length : raw.length = tests.length) :
    sumPoints Value.number (raw.filter fun c => c.result = .AC) =
      .ok (earnedPoints declared (raw.map fun c => c.result = .AC)) := by
  induction declares generalizing answers raw with
  | nil =>
      rw [List.length_eq_zero_iff.mp length]
      rfl
  | @cons tc p tests declared worth _ ih =>
      obtain ⟨c, cs, rfl⟩ := List.exists_cons_of_length_eq_add_one length
      cases answers with
      | nil => cases all
      | cons answer answers =>
          obtain ⟨ran, rest⟩ := List.forall₂_cons.mp all
          have ran : Ran (tc, answer) c := ran
          have points : c.points.number = .ok p := ran.worth.symm.trans worth
          have rest := ih rest (by simpa using length)
          rw [List.map_cons, earnedPoints_cons]
          by_cases hc : c.result = .AC
          · rw [List.filter_cons_of_pos (by simpa using hc)]
            exact sumPoints_cons.mpr ⟨p, _, points, rest, by simp [hc]⟩
          · rw [List.filter_cons_of_neg (by simpa using hc), rest]
            simp [hc]

/-- With partial scores and without batches the score is what the accepted cases declare. -/
theorem score_judgedAs {problem : Value} {tests : List Value} {outcomes : List Bool}
    {r : JudgeResult Value} {declared : List ℚ}
    (declares : List.Forall₂ (fun tc p => declaredWorth tc = .ok p) tests declared)
    (unbatched : ∀ tc ∈ tests, batchless tc = true)
    (scores : ∃ v, problem.get "partial" (.bool false) = .ok v ∧ v.truthy = true)
    (length : outcomes.length = tests.length)
    (judged : JudgedAs judge problem tests outcomes r) :
    r.score = earnedPoints declared outcomes := by
  obtain ⟨σ, h, payload, s, s', readProblem, readTests, run, completed, compiled, rfl⟩ := judged
  obtain ⟨submissionId, problem', tests', _, hproblem, htests, ⟨_, rfl⟩ |
    ⟨stopOnFirst, hasBatch, request, batch, t, t', asked, answered, assembled⟩⟩ :=
    ensures_answered payload s r s' run
  · cases completed
  obtain rfl := Except.ok.inj (readProblem.symm.trans hproblem)
  obtain rfl := Except.ok.inj (readTests.symm.trans htests)
  obtain rfl : hasBatch = false :=
    Except.ok.inj (asked.readBatches.symm.trans (anyBatch_batchless unbatched))
  obtain rfl : stopOnFirst = false := by
    obtain ⟨partialScore, hscored, rfl⟩ := asked.strategy
    obtain ⟨v, hv, truthy⟩ := scores
    obtain rfl := Except.ok.inj (hscored.symm.trans hv)
    simp [truthy]
  obtain ⟨progress, loop, assembled⟩ := bind_eq_ok.mp assembled
  obtain ⟨raw, padded, assembled⟩ := bind_eq_ok.mp assembled
  obtain ⟨⟨cases, total⟩, scored, assembled⟩ := bind_eq_ok.mp assembled
  obtain ⟨verdict, _, assembled⟩ := bind_eq_ok.mp assembled
  cases assembled
  obtain ⟨ran, skipped, split, all, _, complete⟩ := raw_ran loop padded
  obtain rfl := complete rfl
  rw [List.append_nil] at split
  subst split
  obtain rfl := score_unbatched scored
  have compiled : ¬ decide (batch.compile.status ≠ .AC) = true := by
    rw [show decide (batch.compile.status ≠ .AC) = false from compiled]
    exact nofun
  rw [score, if_neg (by simp), if_neg compiled] at scored
  obtain ⟨sum, summed, scored⟩ := bind_eq_ok.mp scored
  cases scored
  have length : cases.length = tests.length := by simpa [JudgeResult.outcomes] using length
  rw [sumPoints_declared all declares length] at summed
  exact (Except.ok.inj summed).symm

end StandardMode

/-! ### The other modes -/

/-- A mode that judges case by case gives every accepted case its share. -/
theorem CaseMode.score_judgedAs {mode : CaseMode} {problem : Value} {tests : List Value}
    {outcomes : List Bool} {r : JudgeResult Value} {points : ℚ}
    (worth : (problem.item "points" >>= Value.number) = .ok points)
    (judged : JudgedAs mode.judge problem tests outcomes r) :
    r.score = points / tests.length * outcomes.count true ∧ outcomes.length = tests.length := by
  obtain ⟨σ, h, payload, s, s', readProblem, readTests, run, completed, _, rfl⟩ := judged
  obtain ⟨submissionId, problem', tests', points', tally, rounds, rfl⟩ :=
    (ensures_judge mode payload s r s' run).completed completed
  obtain rfl := Except.ok.inj (readProblem.symm.trans rounds.readProblem)
  obtain rfl := Except.ok.inj (readTests.symm.trans rounds.readTests)
  obtain rfl := Except.ok.inj (worth.symm.trans rounds.readPoints)
  have length : tally.cases.length = tests.length := rounds.reflects.entries.length_eq.symm
  have count : (tally.cases.map fun c => decide (c.result = .AC)).count true =
      accepted tally.cases := by
    rw [accepted, List.count, List.countP_map]
    congr 1
    funext c
    simp
  constructor
  · change tally.totalScore = _ * ((tally.cases.map fun c => decide (c.result = .AC)).count true : ℕ)
    rw [rounds.reflects.score, count]
    obtain none | some := Nat.eq_zero_or_pos tests.length
    · rw [List.length_eq_zero_iff.mp (length.trans none), none]
      simp [accepted]
    · rw [max_eq_left some]
  · simpa [JudgeResult.outcomes, Tally.result] using length

/-- Three results of one problem with the same outcomes have the score the accepted cases declare
exactly if these declare as much as their shares of the problem. Under all outcomes they do
exactly if every case declares its share. -/
theorem modes_score_alike {problem : Value} {tests : List Value} {declared : List ℚ} {points : ℚ}
    (worth : (problem.item "points" >>= Value.number) = .ok points)
    (declares : List.Forall₂ (fun tc p => StandardMode.declaredWorth tc = .ok p) tests declared)
    (unbatched : ∀ tc ∈ tests, StandardMode.batchless tc = true)
    (scores : ∃ v, problem.get "partial" (.bool false) = .ok v ∧ v.truthy = true) :
    (∀ (outcomes : List Bool) (r : JudgeResult Value) (r' : CaseMode → JudgeResult Value),
      JudgedAs StandardMode.judge problem tests outcomes r →
      (∀ mode, JudgedAs mode.judge problem tests outcomes (r' mode)) →
      ((r.score = earnedPoints declared outcomes ∧
          ∀ mode, (r' mode).score = earnedPoints declared outcomes) ↔
        earnedPoints declared outcomes = points / tests.length * outcomes.count true)) ∧
    ((∀ outcomes : List Bool, outcomes.length = tests.length →
        earnedPoints declared outcomes = points / tests.length * outcomes.count true) ↔
      ∀ p ∈ declared, p = points / tests.length) := by
  constructor
  · intro outcomes r r' standard others
    have length := (CaseMode.score_judgedAs worth (others .special)).2
    have score := StandardMode.score_judgedAs declares unbatched scores length standard
    have shares := fun mode => (CaseMode.score_judgedAs worth (others mode)).1
    constructor
    · rintro ⟨_, same⟩
      exact (same .special).symm.trans (shares .special)
    · intro same
      exact ⟨score, fun mode => (shares mode).trans same.symm⟩
  · rw [declares.length_eq]
    exact earnedPoints_share_iff

/-! ### One accepted case -/

section OneCase

/-- A request that all modes can judge: a hundred points for the problem, and one test case. -/
def sharedProblem : Value :=
  .dict [("code", .str "p"), ("time_limit_ms", .int 1000), ("memory_limit_kb", .int 65536),
    ("points", .int 100), ("partial", .bool true)]

def caseWorth (points : Int) : Value := .dict [("case_no", .int 1), ("points", .int points)]

def sharedRequest (points : Int) : Value :=
  .dict [
    ("submission_id", .str "s"),
    ("problem", sharedProblem),
    ("language", .dict [("key", .str "py"), ("run_command", .str "python3")]),
    ("source", .str "answer"),
    ("spj", .dict [("source", .str "checker")]),
    ("interactor", .dict [("source", .str "interactor"),
      ("language", .dict [("key", .str "py"), ("run_command", .str "python3")])]),
    ("test_cases", .list [caseWorth points])]

/-- A run of one of the modes, of which these are known. -/
theorem judgedAs_run (judge : Value → Judging (JudgeResult Value)) (points : Int)
    (world : World Unit) (score : ℚ)
    (run : ((judge (sharedRequest points)).run world ()).1.toOption.map
      (fun r => (r.status, r.compileError, r.outcomes, r.score)) =
        some (.COMPLETED, false, [true], score)) :
    ∃ r, JudgedAs judge sharedProblem [caseWorth points] [true] r ∧ r.score = score := by
  obtain ⟨r, s', run, known⟩ := Program.run_of_map world run
  simp only [Prod.mk.injEq] at known
  obtain ⟨completed, compiled, outcomes, score⟩ := known
  exact ⟨r, ⟨Unit, world, sharedRequest points, (), s', rfl, rfl, run, completed, compiled,
    outcomes⟩, score⟩

/-- One accepted case that declares fifty of a hundred points: the STANDARD mode gives fifty, the
SPECIAL_JUDGE mode gives a hundred. -/
theorem modes_disagree : ¬ ∀ (r r' : JudgeResult Value),
    JudgedAs StandardMode.judge sharedProblem [caseWorth 50] [true] r →
    JudgedAs CaseMode.special.judge sharedProblem [caseWorth 50] [true] r' →
    r.score = r'.score := by
  intro agree
  obtain ⟨r, standard, fifty⟩ := judgedAs_run StandardMode.judge 50
    (StandardMode.scriptOf [StandardMode.printed "1"]).world 50 (by decide +kernel)
  obtain ⟨r', special, hundred⟩ := judgedAs_run CaseMode.special.judge 50
    acceptingScript.world 100 (by decide +kernel)
  have same := agree r r' standard special
  rw [fifty, hundred] at same
  exact absurd same (by norm_num)

/-- One accepted case that declares all the points: every mode gives them. -/
theorem modes_agree_whole : ∃ (r : JudgeResult Value) (r' : CaseMode → JudgeResult Value),
    r.score = earnedPoints [100] [true] ∧ ∀ mode, (r' mode).score = earnedPoints [100] [true] := by
  obtain ⟨r, standard, _⟩ := judgedAs_run StandardMode.judge 100
    (StandardMode.scriptOf [StandardMode.printed "1"]).world 100 (by decide +kernel)
  have others : ∀ mode : CaseMode, ∃ r, JudgedAs mode.judge sharedProblem [caseWorth 100] [true] r := by
    intro mode
    obtain ⟨r, judged, _⟩ := judgedAs_run mode.judge 100 acceptingScript.world 100 (by
      cases mode <;> decide +kernel)
    exact ⟨r, judged⟩
  choose r' others using others
  have worth : (sharedProblem.item "points" >>= Value.number) = .ok 100 := rfl
  have declares : List.Forall₂ (fun tc p => StandardMode.declaredWorth tc = .ok p)
      [caseWorth 100] [100] := .cons rfl .nil
  have alike := (modes_score_alike worth declares (by decide) ⟨.bool true, rfl, rfl⟩).1 [true] r r'
    standard others
  exact ⟨r, r', alike.mpr (by norm_num [earnedPoints])⟩

end OneCase

end AcojWorker
