import AcojWorker.Judge.Interactive
import Mathlib.Data.List.Forall2
import Mathlib.Tactic.FieldSimp

/-!
# Judging case by case

Both modes that run their cases one after the other keep a tally. After every round the
tally has one entry for each case so far, its score is the share of a case times the number
of accepted entries, and its flag says whether all of them are accepted. A request without
test cases leaves the tally at its start, where the flag is set.
-/

namespace AcojWorker

open Python Effect

/-- The two modes. -/
inductive CaseMode where
  | special
  | interactive
deriving DecidableEq

def CaseMode.judge : CaseMode → Value → Judging (JudgeResult Value)
  | .special => SpecialJudgeMode.judge
  | .interactive => InteractiveMode.judge

/-- An entry carries the number of the test case it is about. -/
def EntryOf (tc : Value) (c : CaseResult Value) : Prop := tc.item "case_no" = .ok c.caseNo

def accepted (cases : List (CaseResult Value)) : ℕ := cases.countP fun c => c.result = .AC

/-- What a completed result says about the test cases, in exact arithmetic. -/
structure Exact (mode : CaseMode) (tests : List Value) (points : ℚ) (r : JudgeResult Value) :
    Prop where
  entries : List.Forall₂ EntryOf tests r.cases
  score : r.score = points * accepted r.cases / tests.length
  accepted_iff : r.result = some .AC ↔ tests ≠ [] ∧ ∀ c ∈ r.cases, c.result = .AC
  first_failure : mode = .interactive → ∀ c, r.cases.find? (fun c => c.result ≠ .AC) = some c →
    r.result = some c.result

/-! ### The tally -/

/-- What a tally says about the test cases it has seen, each worth `points`. -/
structure Tally.Reflects (tally : Tally) (points : ℚ) (tests : List Value) : Prop where
  entries : List.Forall₂ EntryOf tests tally.cases
  score : tally.totalScore = points * accepted tally.cases
  allAC : tally.allAC = true ↔ ∀ c ∈ tally.cases, c.result = .AC
  judged : ∀ c ∈ tally.cases, c.result ≠ .SKIPPED
  worth : ∀ c ∈ tally.cases, c.points = .float (if c.result = .AC then points else 0)

namespace Tally

variable {tally : Tally} {points : ℚ} {tests : List Value} {tc : Value} {c : CaseResult Value}

theorem reflects_start (points : ℚ) (compileTimeMs compileMemoryKb : Int) :
    (start compileTimeMs compileMemoryKb).Reflects points [] where
  entries := .nil
  score := by simp [start, accepted]
  allAC := by simp [start]
  judged := by simp [start]
  worth := by simp [start]

/-- One more entry, for a test case that was judged, with the score and the flag it leads to. -/
def Adds (tally : Tally) (points : ℚ) (tc : Value) (tally' : Tally) : Prop :=
  ∃ c, EntryOf tc c ∧ c.result ≠ .SKIPPED ∧
    c.points = .float (if c.result = .AC then points else 0) ∧
    tally'.cases = tally.cases ++ [c] ∧
    tally'.totalScore = tally.totalScore + (if c.result = .AC then points else 0) ∧
    tally'.allAC = (tally.allAC && c.result = .AC)

theorem adds_addFailed (entry : EntryOf tc c) (failed : c.result ≠ .AC)
    (judged : c.result ≠ .SKIPPED) (worth : c.points = .float 0) :
    tally.Adds points tc (tally.addFailed c) :=
  ⟨c, entry, judged, by rw [worth, if_neg failed], rfl, by simp [addFailed, failed],
    by simp [addFailed, failed]⟩

theorem adds_addRun (entry : EntryOf tc c) (judged : c.result ≠ .SKIPPED) :
    tally.Adds points tc (tally.addRun points c) := by
  by_cases hc : c.result = .AC
  · rw [addRun, if_pos hc]
    exact ⟨{ c with points := .float points }, entry, judged, by rw [if_pos hc], rfl, by simp [hc],
      by simp [hc]⟩
  · rw [addRun, if_neg hc]
    exact adds_addFailed (c := { c with points := .float 0 }) entry hc judged rfl

theorem Reflects.adds (h : tally.Reflects points tests) {tally' : Tally}
    (added : tally.Adds points tc tally') : tally'.Reflects points (tests ++ [tc]) := by
  obtain ⟨c, entry, judged, worth, cases, score, allAC⟩ := added
  constructor
  · rw [cases]
    exact List.rel_append h.entries (.cons entry .nil)
  · rw [score, h.score, cases, accepted, accepted, List.countP_append, List.countP_singleton]
    by_cases hc : c.result = .AC <;> simp [hc, mul_add]
  · rw [allAC, cases, Bool.and_eq_true, h.allAC]
    simp [or_imp, forall_and]
  · rw [cases]
    intro d hd
    rcases List.mem_append.mp hd with hd | hd
    · exact h.judged d hd
    · rwa [List.mem_singleton.mp hd]
  · rw [cases]
    intro d hd
    rcases List.mem_append.mp hd with hd | hd
    · exact h.worth d hd
    · rwa [List.mem_singleton.mp hd]

/-- Without skipped entries, the first failure is the first entry that is not accepted. -/
theorem Reflects.overallResult (h : tally.Reflects points tests) :
    InteractiveMode.overallResult tally =
      match tally.cases.find? (fun c => c.result ≠ .AC) with
      | some c => c.result
      | none => .AC := by
  have search : tally.cases.find? (fun c => c.result ≠ .AC ∧ c.result ≠ .SKIPPED) =
      tally.cases.find? (fun c => c.result ≠ .AC) := by
    have all := h.judged
    generalize tally.cases = cases at all
    induction cases with
    | nil => rfl
    | cons c cases ih =>
        have judged := all c (List.mem_cons_self ..)
        have rest := ih (fun d hd => all d (List.mem_cons_of_mem _ hd))
        rw [List.find?_cons, List.find?_cons, rest]
        simp [judged]
  rw [InteractiveMode.overallResult, search]
  cases hfind : tally.cases.find? (fun c => c.result ≠ .AC) with
  | none =>
      have all : tally.allAC = true := by
        rw [h.allAC]
        simpa using List.find?_eq_none.mp hfind
      simp [all]
  | some c =>
      have notAll : ¬ tally.allAC = true := by
        rw [h.allAC]
        intro all
        have := List.find?_some hfind
        simp [all c (List.mem_of_find?_eq_some hfind)] at this
      simp [notAll]

end Tally

/-- The verdict a mode gives to a tally. -/
def CaseMode.verdict : CaseMode → Tally → Verdict
  | .special, tally => if tally.allAC then .AC else .WA
  | .interactive, tally => InteractiveMode.overallResult tally

theorem CaseMode.verdict_eq_AC {mode : CaseMode} {tally : Tally} {points : ℚ}
    {tests : List Value} (h : tally.Reflects points tests) :
    mode.verdict tally = .AC ↔ ∀ c ∈ tally.cases, c.result = .AC := by
  rw [← h.allAC]
  cases mode with
  | special => by_cases all : tally.allAC = true <;> simp [CaseMode.verdict, all]
  | interactive =>
      rw [CaseMode.verdict, h.overallResult]
      cases hfind : tally.cases.find? (fun c => c.result ≠ .AC) with
      | none =>
          rw [h.allAC]
          simpa using List.find?_eq_none.mp hfind
      | some c =>
          have bad : c.result ≠ .AC := by simpa using List.find?_some hfind
          simp only [bad, false_iff, h.allAC]
          exact fun all => bad (all c (List.mem_of_find?_eq_some hfind))

/-- The share of every case, taken once for each accepted one. -/
theorem share_mul {points : ℚ} {n : ℕ} (positive : n ≠ 0) (k : ℕ) :
    points / (max n 1 : ℕ) * k = points * k / n := by
  rw [max_eq_left (Nat.one_le_iff_ne_zero.mpr positive)]
  ring

/-- The final result is exact as soon as there is a test case; without one it is accepted. -/
theorem exact_result {mode : CaseMode} {tally : Tally} {points : ℚ} {tests : List Value}
    (h : tally.Reflects (points / (max tests.length 1 : ℕ)) tests) (submissionId : Value) :
    Exact mode tests points (tally.result submissionId (mode.verdict tally)) ↔ tests ≠ [] := by
  have verdict : (tally.result submissionId (mode.verdict tally)).result = some .AC ↔
      ∀ c ∈ tally.cases, c.result = .AC := by
    rw [Tally.result, Option.some.injEq]
    exact CaseMode.verdict_eq_AC h
  constructor
  · rintro exact rfl
    have none : tally.cases = [] := List.forall₂_nil_left_iff.mp h.entries
    exact (exact.accepted_iff.mp (verdict.mpr (by simp [none]))).1 rfl
  · intro nonempty
    refine ⟨h.entries, ?_, ?_, ?_⟩
    · exact h.score.trans (share_mul (by simpa using nonempty) _)
    · rw [verdict]
      exact ⟨fun all => ⟨nonempty, all⟩, And.right⟩
    · rintro rfl c hc
      change some (InteractiveMode.overallResult tally) = some c.result
      rw [h.overallResult]
      change tally.cases.find? _ = some c at hc
      rw [hc]

/-! ### One round of each mode -/

variable {σ : Type} {h : World σ} {tally : Tally} {points : ℚ} {tests : List Value} {tc : Value}

theorem SpecialJudgeMode.ensures_judgeCase {session : Session} {problem : Value} :
    (judgeCase session problem points tally tc).Ensures h (tally.Adds points tc) := by
  refine Program.ensures_step fun inputRef => Program.ensures_step fun expectedRef =>
    Program.ensures_step fun limits => Program.ensures_step fun userResult =>
    Program.ensures_step fun actualRef => Program.ensures_step fun answerRef =>
    Program.ensures_step fun passed => ?_
  refine Program.ensures_bind
    (Program.ensures_lift (Q := fun caseNo => tc.item "case_no" = .ok caseNo) fun _ hc => hc) ?_
  intro caseNo hcaseNo
  refine Program.ensures_step fun stdoutRef => Program.ensures_step fun stderrRef =>
    Program.ensures_ret (Tally.adds_addRun hcaseNo ?_)
  change (if _ then Verdict.AC else Verdict.WA) ≠ .SKIPPED
  split <;> exact nofun

namespace InteractiveMode

theorem caseStatus_ne_SKIPPED (user interactor : Option RunResult) :
    caseStatus user interactor ≠ .SKIPPED := by
  unfold caseStatus
  split
  · split_ifs
    · exact toOjResult_ne_SKIPPED _
    · exact toOjResult_ne_SKIPPED _
    · exact nofun
    · exact nofun
  · exact nofun

theorem ensures_caseNo (res : Resources) :
    (guarded res (liftM (tc.item "case_no"))).Ensures h
      fun caseNo => tc.item "case_no" = .ok caseNo :=
  ensures_guarded (Program.ensures_lift fun _ hc => hc)

theorem ensures_runPrograms {problem : Value} {res : Resources} {request : RunBoth} :
    (runPrograms problem tc res request).Ensures h
      fun entry => EntryOf tc entry ∧ entry.result ≠ .SKIPPED := by
  refine Program.ensures_step fun timeout => Program.ensures_step fun answer =>
    Program.ensures_step fun res => Program.ensures_step fun res =>
    Program.ensures_step fun stderrText => Program.ensures_bind (ensures_caseNo res) ?_
  intro caseNo hcaseNo
  exact Program.ensures_step fun _ =>
    Program.ensures_ret ⟨hcaseNo, caseStatus_ne_SKIPPED _ _⟩

theorem ensures_settleUnrun {res : Resources} {program : Prepared} {verdict : Verdict}
    (failed : verdict ≠ .AC) (judged : verdict ≠ .SKIPPED) :
    (settleUnrun tc res program verdict tally).Ensures h (tally.Adds points tc) := by
  refine Program.ensures_bind (ensures_caseNo res) ?_
  intro caseNo hcaseNo
  exact Program.ensures_step fun message => Program.ensures_step fun _ =>
    Program.ensures_ret (Tally.adds_addFailed hcaseNo failed judged rfl)

theorem ensures_runCase {setting : Setting} {limits : JudgeLimits} {res : Resources} :
    (runCase setting tc limits res tally points).Ensures h (tally.Adds points tc) := by
  refine Program.ensures_step fun interactorSource => Program.ensures_step fun program => ?_
  refine Program.ensures_ite (fun _ => ?_) (fun _ => ensures_settleUnrun nofun nofun)
  refine Program.ensures_bind ensures_runPrograms ?_
  rintro entry ⟨hentry, judged⟩
  exact Program.ensures_ret (Tally.adds_addRun hentry judged)

theorem ensures_judgeCase {setting : Setting} :
    (judgeCase setting points tally tc).Ensures h (tally.Adds points tc) := by
  refine Program.ensures_step fun inputRef => Program.ensures_step fun limits =>
    Program.ensures_step fun workDir => Program.ensures_step fun _ =>
    Program.ensures_step fun _ => Program.ensures_step fun _ =>
    Program.ensures_step fun fdAB => Program.ensures_step fun fdBA =>
    Program.ensures_step fun userClient => Program.ensures_step fun interactorClient => ?_
  rw [compileAndRun]
  cases userClient with
  | none => exact ensures_runCase
  | some client =>
      refine Program.ensures_ite (fun _ => ?_) (fun _ => ensures_runCase)
      refine Program.ensures_step fun program => ?_
      -- the time and the memory of compiling are not part of what a round adds
      let compiled : Tally := { tally with
        compileTimeMs := max tally.compileTimeMs (compileMetricsFromProcess program.compile).1
        compileMemoryKb := max tally.compileMemoryKb (compileMetricsFromProcess program.compile).2 }
      change Program.Ensures h _ (compiled.Adds points tc)
      exact Program.ensures_ite (fun _ => ensures_runCase)
        (fun _ => ensures_settleUnrun nofun nofun)

end InteractiveMode

/-! ### Whole runs -/

/-- One round of a mode that judges the test cases of a problem. -/
def CaseMode.IsRound (problem : Value) (points : ℚ) (round : Tally → Value → Judging Tally) :
    CaseMode → Prop
  | .special => ∃ session, round = SpecialJudgeMode.judgeCase session problem points
  | .interactive => ∃ setting, setting.problem = problem ∧
      round = InteractiveMode.judgeCase setting points

theorem ensures_round {mode : CaseMode} {problem : Value} {round : Tally → Value → Judging Tally}
    (isRound : mode.IsRound problem points round) (tally : Tally) (tc : Value) :
    (round tally tc).Ensures h (tally.Adds points tc) := by
  cases mode with
  | special =>
      obtain ⟨session, rfl⟩ := isRound
      exact SpecialJudgeMode.ensures_judgeCase
  | interactive =>
      obtain ⟨setting, _, rfl⟩ := isRound
      exact InteractiveMode.ensures_judgeCase

/-- A run of the loop over the test cases that ends with `tally`. -/
structure Rounds (h : World σ) (mode : CaseMode) (payload submissionId problem : Value)
    (tests : List Value) (points : ℚ) (tally : Tally) : Prop where
  readId : payload.item "submission_id" = .ok submissionId
  readProblem : payload.item "problem" = .ok problem
  readTests : (payload.item "test_cases" >>= Value.elements) = .ok tests
  readPoints : (problem.item "points" >>= Value.number) = .ok points
  run : ∃ round compileTimeMs compileMemoryKb s s',
    mode.IsRound problem (points / (max tests.length 1 : ℕ)) round ∧
    (tests.foldlM round (.start compileTimeMs compileMemoryKb)).run h s = (.ok tally, s')

theorem Rounds.reflects {mode : CaseMode} {payload submissionId problem : Value}
    (rounds : Rounds h mode payload submissionId problem tests points tally) :
    tally.Reflects (points / (max tests.length 1 : ℕ)) tests := by
  obtain ⟨round, compileTimeMs, compileMemoryKb, s, s', isRound, run⟩ := rounds.run
  refine Program.ensures_foldlM
    (I := fun done tally => Tally.Reflects tally (points / (max tests.length 1 : ℕ)) done)
    (Tally.reflects_start _ _ _) (fun done tc tally seen => ?_) tests s tally s' run
  exact Program.ensures_mono (ensures_round isRound tally tc) fun tally' added => seen.adds added

/-- The postcondition of both modes: the result of a tally of all cases, or a failure that is
explained. -/
def Judged (h : World σ) (mode : CaseMode) (payload : Value) (r : JudgeResult Value) : Prop :=
  (∃ submissionId problem tests points tally,
    Rounds h mode payload submissionId problem tests points tally ∧
    r = tally.result submissionId (mode.verdict tally)) ∨
  ∃ submissionId msg, payload.item "submission_id" = .ok submissionId ∧ msg ≠ "" ∧
    r = errorVerdict submissionId msg

theorem Judged.completed {mode : CaseMode} {payload : Value} {r : JudgeResult Value}
    (judged : Judged h mode payload r) (completed : r.status = .COMPLETED) :
    ∃ submissionId problem tests points tally,
      Rounds h mode payload submissionId problem tests points tally ∧
      r = tally.result submissionId (mode.verdict tally) := by
  obtain done | ⟨_, _, _, _, rfl⟩ := judged
  · exact done
  · cases completed

theorem judged_failed {mode : CaseMode} {payload submissionId : Value}
    (hid : payload.item "submission_id" = .ok submissionId) {msg : String} (text : msg ≠ "") :
    Judged h mode payload (errorVerdict submissionId msg) :=
  .inr ⟨submissionId, msg, hid, text, rfl⟩

/-- A text stays a text when something is appended. -/
theorem append_ne_empty {a : String} (text : a ≠ "") (b : String) : a ++ b ≠ "" :=
  fun empty => text (String.append_eq_empty_iff.mp empty).1

theorem perCasePoints_eq {problem : Value} {share : ℚ}
    (hshare : perCasePoints problem tests = .ok share) :
    ∃ points, (problem.item "points" >>= Value.number) = .ok points ∧
      share = points / (max tests.length 1 : ℕ) := by
  obtain ⟨declared, hdeclared, h⟩ := bind_eq_ok.mp hshare
  obtain ⟨points, hpoints, h⟩ := bind_eq_ok.mp h
  cases h
  exact ⟨points, bind_eq_ok.mpr ⟨declared, hdeclared, hpoints⟩, rfl⟩

theorem SpecialJudgeMode.ensures_judge (payload : Value) :
    (judge payload).Ensures h (Judged h .special payload) := by
  refine ensures_read fun submissionId hid => ensures_read fun problem hproblem =>
    ensures_read fun languageCfg _ => ensures_read fun source _ =>
    ensures_read fun spjCfg _ => ensures_read fun testCasesData htests =>
    ensures_read fun checkerSource _ => ?_
  refine Program.ensures_ite (fun _ => Program.ensures_ret (judged_failed hid (by decide)))
    (fun _ => ?_)
  refine Program.ensures_step fun language => Program.ensures_step fun languageKey =>
    Program.ensures_step fun checkerKey => Program.ensures_step fun _ =>
    Program.ensures_step fun _ => Program.ensures_step fun _ =>
    Program.ensures_step fun client => Program.ensures_step fun checkerClient =>
    Program.ensures_step fun program => ?_
  refine Program.ensures_ite (fun _ => Program.ensures_step fun _ =>
    Program.ensures_ret (judged_failed hid (append_ne_empty (by decide) _))) (fun _ => ?_)
  refine Program.ensures_step fun checkerProgram => ?_
  refine Program.ensures_ite (fun _ => Program.ensures_step fun _ =>
    Program.ensures_ret (judged_failed hid (append_ne_empty (by decide) _))) (fun _ => ?_)
  refine Program.ensures_bind
    (P := fun tally => ∃ tests points,
      Rounds h .special payload submissionId problem tests points tally)
    (Program.ensures_tryFinally (ensures_read fun tests helements =>
      ensures_read fun share hshare => ?_)) ?_
  · obtain ⟨points, hpoints, rfl⟩ := perCasePoints_eq hshare
    intro s tally s' run
    exact ⟨tests, points, hid, hproblem, bind_eq_ok.mpr ⟨testCasesData, htests, helements⟩,
      hpoints, _, _, _, s, s', ⟨_, rfl⟩, run⟩
  · rintro tally ⟨tests, points, rounds⟩
    exact Program.ensures_ret (.inl ⟨submissionId, problem, tests, points, tally, rounds, rfl⟩)

theorem InteractiveMode.ensures_judge (payload : Value) :
    (judge payload).Ensures h (Judged h .interactive payload) := by
  refine ensures_read fun submissionId hid => ensures_read fun problem hproblem =>
    ensures_read fun interactorCfg _ => ensures_read fun source _ =>
    ensures_read fun testCasesData htests => ensures_read fun languageCfg _ =>
    ensures_read fun interactorSource _ => ?_
  refine Program.ensures_ite (fun _ => Program.ensures_ret (judged_failed hid (by decide)))
    (fun _ => ?_)
  refine Program.ensures_step fun languages => Program.ensures_step fun languageKey =>
    Program.ensures_step fun interactorLanguage => Program.ensures_step fun interactorLanguages =>
    Program.ensures_step fun interactorKey => Program.ensures_step fun _ =>
    Program.ensures_step fun _ => ensures_read fun tests helements =>
    ensures_read fun share hshare => ?_
  obtain ⟨points, hpoints, rfl⟩ := perCasePoints_eq hshare
  refine Program.ensures_bind
    (P := Rounds h .interactive payload submissionId problem tests points)
    (fun s tally s' run => ⟨hid, hproblem,
      bind_eq_ok.mpr ⟨testCasesData, htests, helements⟩, hpoints, _, _, _, s, s', ⟨_, rfl, rfl⟩,
      run⟩) ?_
  intro tally rounds
  exact Program.ensures_ret (.inl ⟨submissionId, problem, tests, points, tally, rounds, rfl⟩)

theorem ensures_judge (mode : CaseMode) (payload : Value) :
    (mode.judge payload).Ensures h (Judged h mode payload) := by
  cases mode with
  | special => exact SpecialJudgeMode.ensures_judge payload
  | interactive => exact InteractiveMode.ensures_judge payload

/-- A completed result of a mode that judges case by case is exact if and only if the request
has a test case. -/
theorem judge_exact {mode : CaseMode} {payload : Value} {s s' : σ} {r : JudgeResult Value}
    (run : (mode.judge payload).run h s = (.ok r, s')) (completed : r.status = .COMPLETED) :
    ∃ problem tests points,
      payload.item "problem" = .ok problem ∧
      (payload.item "test_cases" >>= Value.elements) = .ok tests ∧
      (problem.item "points" >>= Value.number) = .ok points ∧
      (Exact mode tests points r ↔ tests ≠ []) := by
  obtain ⟨submissionId, problem, tests, points, tally, rounds, rfl⟩ :=
    (ensures_judge mode payload s r s' run).completed completed
  exact ⟨problem, tests, points, rounds.readProblem, rounds.readTests, rounds.readPoints,
    exact_result rounds.reflects submissionId⟩

section SmallRequest

/-- A request worth a hundred points that both modes can judge. -/
def smallRequest (tests : List Value) : Value :=
  .dict [
    ("submission_id", .str "s"),
    ("problem", .dict [("code", .str "p"), ("time_limit_ms", .int 1000),
      ("memory_limit_kb", .int 65536), ("points", .int 100)]),
    ("language", .dict [("key", .str "py"), ("run_command", .str "python3")]),
    ("source", .str "answer"),
    ("spj", .dict [("source", .str "checker")]),
    ("interactor", .dict [("source", .str "interactor"),
      ("language", .dict [("key", .str "py"), ("run_command", .str "python3")])]),
    ("test_cases", .list tests)]

/-- Everything compiles, every run is accepted at once, and so is every output. -/
def acceptingScript : Script where
  batch := ⟨0, ⟨.AC, 0, 0, 0, 0, ""⟩, "", []⟩
  prepared := ⟨0, true, none, none⟩
  run := ⟨.AC, ⟨.AC, 0, 0, 0, 0, ""⟩, "", "", ""⟩
  accepted := true
  race := ⟨⟨some 0, some ⟨.AC, ⟨.AC, 0, 0, 0, 0, ""⟩, "", "", ""⟩⟩,
    ⟨some 0, some ⟨.AC, ⟨.AC, 0, 0, 0, 0, ""⟩, "", "", ""⟩⟩, none, 0, 0, Race.noLag, Race.noLag⟩

/-- One test case is judged exactly. -/
theorem judge_exact_one_case :
    ∃ r s', (CaseMode.interactive.judge (smallRequest [.dict [("case_no", .int 7)]])).run
        acceptingScript.world () = (.ok r, s') ∧
      ∃ tests points, Exact .interactive tests points r := by
  obtain ⟨r, s', run, completed⟩ := Program.run_of_map acceptingScript.world
    (p := CaseMode.interactive.judge (smallRequest [.dict [("case_no", .int 7)]])) (s := ())
    (f := fun r => r.status) (b := .COMPLETED) (by decide +kernel)
  obtain ⟨problem, tests, points, _, htests, _, exact⟩ := judge_exact run completed
  have one : tests = [.dict [("case_no", .int 7)]] := (Except.ok.inj htests).symm
  exact ⟨r, s', run, tests, points, exact.mpr (by simp [one])⟩

/-- No test case at all is accepted, in both modes. -/
theorem judge_no_case_accepted (mode : CaseMode) :
    ((mode.judge (smallRequest [])).run acceptingScript.world ()).1.toOption.map
      (fun r => (r.status, r.result, r.cases.length)) = some (.COMPLETED, some .AC, 0) := by
  cases mode <;> decide +kernel

/-- Accepted without a test case, the result is not exact. -/
theorem judge_no_case_not_exact :
    ∃ r s', (CaseMode.special.judge (smallRequest [])).run acceptingScript.world () =
        (.ok r, s') ∧
      r.status = .COMPLETED ∧ ¬ Exact .special [] 100 r := by
  obtain ⟨r, s', run, result⟩ := Program.run_of_map acceptingScript.world
    (judge_no_case_accepted .special)
  obtain ⟨completed, accepted, _⟩ := Prod.mk.inj result |>.imp id Prod.mk.inj
  exact ⟨r, s', run, completed, fun exact => (exact.accepted_iff.mp accepted).1 rfl⟩

end SmallRequest

end AcojWorker
