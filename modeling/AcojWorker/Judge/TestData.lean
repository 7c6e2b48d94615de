import AcojWorker.Effect.History
import AcojWorker.Judge.InteractiveResources
import AcojWorker.Judge.PayloadAgreement
import AcojWorker.Judge.StandardVerdict

/-!
# The data a submission is run on

Whatever the storage and the sandbox answer, the judge hands the sandbox nothing as test data
but what a test case of the request declares: an inline text, or a file that was found in the
storage in this very run and whose digest is the declared one. The cases of the STANDARD mode
are those of the request in their order; a checker sees the output of a run on the input it is
given; the two programs of an interactive case start with their input file in place.
-/

namespace AcojWorker

open Python Effect

abbrev History : Type := Trace Sandbox Exc

/-! ### What a test case declares -/

/-- A file was found in the storage, and its digest is the declared one if both are known. -/
def FromFile (file sha256 : Value) (ref : LoadedRef) (past : History) : Prop :=
  (∃ path, [⟨.resolveFile file sha256, .ok (some path)⟩, ⟨.pathExists path, .ok true⟩,
      ⟨.refFromPath path, .ok ref⟩] <:+: past) ∧
    (sha256.truthy = true → ref.sha256 ≠ "" → sha256.isText ref.sha256 = true)

def FromInline (data : Value) (ref : LoadedRef) (past : History) : Prop :=
  ⟨.refFromData data, .ok ref⟩ ∈ past

/-- The reference holds the input the test case declares. -/
def InputOf (tc : Value) (ref : LoadedRef) (past : History) : Prop :=
  ∃ file sha256, tc.get "input_file" .none = .ok file ∧ tc.get "input_sha256" .none = .ok sha256 ∧
    if (file.orElse (.str "")).truthy then
      FromFile (file.orElse (.str "")) (sha256.orElse (.str "")) ref past
    else ∃ data, tc.get "input_inline" (.str "") = .ok data ∧ FromInline data ref past

/-- The reference holds the output the test case expects, if it expects one. -/
def OutputOf (tc : Value) (ref : Option LoadedRef) (past : History) : Prop :=
  ∃ file sha256, tc.get "output_file" .none = .ok file ∧
    tc.get "output_sha256" .none = .ok sha256 ∧
    if (file.orElse (.str "")).truthy then
      ∃ loaded, ref = some loaded ∧
        FromFile (file.orElse (.str "")) (sha256.orElse (.str "")) loaded past
    else ∃ data, tc.get "output_inline" .none = .ok data ∧
      ((data = .none ∧ ref = none) ∨
        (data ≠ .none ∧ ∃ loaded, ref = some loaded ∧ FromInline data loaded past))

/-- The data of a sandbox case is that of the test case. -/
def CaseOf (tc : Value) (c : JudgeCase) (past : History) : Prop :=
  InputOf tc c.input past ∧ OutputOf tc c.expectedOutput past

/-- The sandbox cases are those of the request, in its order. -/
def SandboxCases (tests : List Value) (cases : List JudgeCase) (past : History) : Prop :=
  List.Forall₂ (fun tc c => CaseOf tc c past) tests cases

/-- What a checker is given for it: nothing expected is the empty text. -/
def AnswerOf (tc : Value) (ref : LoadedRef) (past : History) : Prop :=
  OutputOf tc (some ref) past ∨ (OutputOf tc none past ∧ FromInline (.str "") ref past)

/-- The output of a run on this input. -/
def PrintedOn (input output : LoadedRef) (past : History) : Prop :=
  ∃ program limits result, ⟨.runProgram program input limits, .ok result⟩ ∈ past ∧
    ⟨.refFromPath result.stdoutPath, .ok output⟩ ∈ past

/-! ### Input files -/

def SandboxOp.writesFile : SandboxOp → Bool
  | copyFile .. | writeBytes .. | writeText .. => true
  | _ => false

/-- The call puts what the reference holds into a file. -/
def Writes (ref : LoadedRef) (file : String) : SandboxOp → Prop
  | .copyFile source target => ref.path = some source ∧ source ≠ "" ∧ target = file
  | .writeBytes path data => ref.path.getD "" = "" ∧ ref.data = .bytes data ∧ path = file
  | .writeText path text => ref.path.getD "" = "" ∧
      (ref.data = .str text ∨ ref.data = .none ∧ text = "") ∧ path = file
  | _ => False

/-- The last file that was written is this one, with what the reference holds. -/
def Written (ref : LoadedRef) (file : String) (past : History) : Prop :=
  ∃ before op r after, past = before ++ ⟨op, .ok r⟩ :: after ∧ Writes ref file op ∧
    ∀ e ∈ after, e.op.writesFile = false

/-! ### Calls on declared data -/

def declaredTests (payload : Value) : Except Exc (List Value) := do
  (← payload.item "test_cases").elements

/-- Test data comes from a test case of the request. -/
def Declared (payload : Value) : Policy Sandbox Exc
  | past, .runCases request => ∃ tests, declaredTests payload = .ok tests ∧
      SandboxCases tests request.cases past
  | past, .runProgram _ input _ => ∃ tests, declaredTests payload = .ok tests ∧
      ∃ tc ∈ tests, InputOf tc input past
  | past, .runTestlibChecker request => ∃ tests, declaredTests payload = .ok tests ∧
      ∃ tc ∈ tests, InputOf tc request.input past ∧ AnswerOf tc request.expectedOutput past ∧
        PrintedOn request.input request.actualOutput past
  | past, .runBoth request => ∃ tests, declaredTests payload = .ok tests ∧
      ∃ tc ∈ tests, ∃ ref, InputOf tc ref past ∧ Written ref (request.workDir ++ "/input.txt") past
  | past, op => op.writesFile = true → ∃ tests, declaredTests payload = .ok tests ∧
      ∃ tc ∈ tests, ∃ ref file, InputOf tc ref past ∧ Writes ref file op

/-- The calls that hand test data to a program or to a file. -/
def SandboxOp.handsOut : SandboxOp → Bool
  | runCases _ | runProgram .. | runTestlibChecker _ | runBoth _ => true
  | op => op.writesFile

section Facts

open Policy Discipline

variable {payload : Value} {past : History}

theorem declared_quiet {op : SandboxOp} (quiet : op.handsOut = false) : Declared payload past op := by
  cases op <;> first
    | cases quiet; done
    | intro writes; cases writes

/-! ### Declared data lasts -/

theorem fromFile_lasts (file sha256 : Value) (ref : LoadedRef) :
    Lasting (FromFile file sha256 ref) := by
  rintro past t ⟨⟨path, before, after, rfl⟩, digest⟩
  exact ⟨⟨path, before, after ++ t, by simp⟩, digest⟩

theorem fromInline_lasts (data : Value) (ref : LoadedRef) : Lasting (FromInline data ref) :=
  fun _ t here => List.mem_append_left t here

theorem printedOn_lasts (input output : LoadedRef) : Lasting (PrintedOn input output) := by
  rintro past t ⟨program, limits, result, run, read⟩
  exact ⟨program, limits, result, List.mem_append_left t run, List.mem_append_left t read⟩

theorem inputOf_lasts (tc : Value) (ref : LoadedRef) : Lasting (InputOf tc ref) := by
  rintro past t ⟨file, sha256, hfile, hsha, source⟩
  refine ⟨file, sha256, hfile, hsha, ?_⟩
  by_cases stored : (file.orElse (.str "")).truthy
  · rw [if_pos stored] at source ⊢
    exact fromFile_lasts _ _ ref past t source
  · rw [if_neg stored] at source ⊢
    obtain ⟨data, hdata, inline⟩ := source
    exact ⟨data, hdata, fromInline_lasts data ref past t inline⟩

theorem outputOf_lasts (tc : Value) (ref : Option LoadedRef) : Lasting (OutputOf tc ref) := by
  rintro past t ⟨file, sha256, hfile, hsha, source⟩
  refine ⟨file, sha256, hfile, hsha, ?_⟩
  by_cases stored : (file.orElse (.str "")).truthy
  · rw [if_pos stored] at source ⊢
    obtain ⟨loaded, hloaded, found⟩ := source
    exact ⟨loaded, hloaded, fromFile_lasts _ _ loaded past t found⟩
  · rw [if_neg stored] at source ⊢
    obtain ⟨data, hdata, nothing | ⟨some, loaded, hloaded, inline⟩⟩ := source
    · exact ⟨data, hdata, .inl nothing⟩
    · exact ⟨data, hdata, .inr ⟨some, loaded, hloaded, fromInline_lasts data loaded past t inline⟩⟩

/-! ### Loading the data of a case -/

theorem resolveFileRef_obeys (kind : String) (file sha256 : Value) :
    (Declared payload).Obeys (fun _ => True) (resolveFileRef kind file sha256)
      (Post (FromFile file sha256) fun _ _ => True) := by
  rw [resolveFileRef]
  refine triple_bind (R := fun path past =>
    ∃ t, past = t ++ [⟨.resolveFile file sha256, .ok path⟩])
    (obeys_perform (fun _ _ => declared_quiet rfl) ?_) fun path => ?_
  · rintro past (e | path) _
    · trivial
    · exact ⟨past, rfl⟩
  extract_lets whenFound
  have loaded : ∀ found, (Declared payload).Obeys
      (fun past => found = true → ∃ p t, path = some p ∧
        past = t ++ [⟨.resolveFile file sha256, .ok (some p)⟩, ⟨.pathExists p, .ok true⟩])
      (whenFound found) (Post (FromFile file sha256) fun _ _ => True) := by
    intro found
    refine triple_ite (fun hfound => ?_) fun _ => triple_raise fun _ _ _ => trivial
    refine triple_bind (R := fun ref past => ∃ p, [⟨.resolveFile file sha256, .ok (some p)⟩,
      ⟨.pathExists p, .ok true⟩, ⟨.refFromPath p, .ok ref⟩] <:+: past)
      (obeys_perform (fun _ _ => declared_quiet rfl) ?_) fun ref => ?_
    · rintro past (e | ref) h
      · trivial
      · obtain ⟨p, t, rfl, rfl⟩ := h hfound
        exact ⟨p, t, [], by simp⟩
    refine triple_ite (fun _ => triple_raise fun _ _ _ => trivial) fun accepted => ?_
    refine triple_ret fun past _ found => ⟨found, fun declared known => ?_⟩
    simpa [declared, known] using accepted
  split
  · next p =>
      refine triple_bind (obeys_perform (fun _ _ => declared_quiet rfl) ?_) loaded
      rintro past (e | found) ⟨t, rfl⟩
      · trivial
      · rintro rfl
        exact ⟨p, t, rfl, by simp⟩
  · exact triple_pre (loaded false) fun _ _ _ => nofun

theorem resolveInputRef_obeys (tc : Value) :
    (Declared payload).Obeys (fun _ => True) (resolveInputRef tc)
      (Post (InputOf tc) fun _ _ => True) := by
  refine obeys_read (fun file hfile => ?_) fun _ _ _ => trivial
  refine obeys_read (fun sha256 hsha => ?_) fun _ _ _ => trivial
  refine triple_ite (fun stored => ?_) fun inline => ?_
  · refine triple_post (resolveFileRef_obeys _ _ _) ?_
    rintro (e | ref) past _ h
    · trivial
    · exact ⟨file, sha256, hfile, hsha, by rwa [if_pos stored]⟩
  · refine obeys_read (fun data hdata => ?_) fun _ _ _ => trivial
    refine obeys_perform (fun _ _ => declared_quiet rfl) ?_
    rintro past (e | ref) _
    · trivial
    · refine ⟨file, sha256, hfile, hsha, ?_⟩
      rw [if_neg inline]
      exact ⟨data, hdata, List.mem_append_right past (List.mem_singleton_self _)⟩

theorem resolveOutputRef_obeys (tc : Value) :
    (Declared payload).Obeys (fun _ => True) (resolveOutputRef tc)
      (Post (OutputOf tc) fun _ _ => True) := by
  refine obeys_read (fun file hfile => ?_) fun _ _ _ => trivial
  refine obeys_read (fun sha256 hsha => ?_) fun _ _ _ => trivial
  refine triple_ite (fun stored => ?_) fun inline => ?_
  · refine triple_step (resolveFileRef_obeys _ _ _) (fun _ _ _ => trivial) fun ref =>
      triple_ret fun past _ h => ⟨file, sha256, hfile, hsha, ?_⟩
    rw [if_pos stored]
    exact ⟨ref, rfl, h⟩
  · refine obeys_read (fun data hdata => ?_) fun _ _ _ => trivial
    have output : ∀ ref past, ((data = .none ∧ ref = none) ∨
        (data ≠ .none ∧ ∃ loaded, ref = some loaded ∧ FromInline data loaded past)) →
        OutputOf tc ref past := by
      intro ref past h
      refine ⟨file, sha256, hfile, hsha, ?_⟩
      rw [if_neg inline]
      exact ⟨data, hdata, h⟩
    split
    · exact triple_ret fun past _ _ => output none past (.inl ⟨rfl, rfl⟩)
    · next some =>
      refine triple_bind (R := FromInline data) (obeys_perform (fun _ _ => declared_quiet rfl) ?_)
        fun ref => triple_ret fun past _ h => output _ past (.inr ⟨some, ref, rfl, h⟩)
      rintro past (e | ref) _
      · trivial
      · exact List.mem_append_right past (List.mem_singleton_self _)

/-- What is known before the expected output is loaded is still known afterwards. -/
theorem outputOf_obeys (tc : Value) {P : History → Prop} (lasting : Lasting P) :
    (Declared payload).Obeys P (resolveOutputRef tc)
      (Post (fun output past => OutputOf tc output past ∧ P past) fun _ _ => True) :=
  triple_pre (obeys_kept lasting (resolveOutputRef_obeys tc)) fun _ _ h => ⟨trivial, h⟩

/-- Calls that hand out nothing leave the data that has been loaded. -/
theorem quiet_obeys {α : Type} {p : Judging α} {P : History → Prop} (lasting : Lasting P)
    (made : p.Calls fun op : SandboxOp => op.handsOut = false) :
    (Declared payload).Obeys P p (Post (fun _ => P) fun _ _ => True) :=
  triple_post (obeys_calls made (fun _ _ quiet _ => declared_quiet quiet)
    fun _ past _ _ h => lasting past _ h) fun out _ _ h => by
      cases out
      · trivial
      · exact h

theorem prepares_quiet {α : Type} {p : Judging α} (made : p.Calls SandboxOp.PreparesRequest) :
    p.Calls fun op : SandboxOp => op.handsOut = false :=
  Program.calls_mono made fun op prepares => by
    cases op <;> first | rfl | exact prepares.elim

/-- The input and the expected output of a sandbox case are those of its test case. -/
theorem buildJudgeCase_obeys (problem tc : Value) :
    (Declared payload).Obeys (fun _ => True) (buildJudgeCase problem tc)
      (Post (fun c past => InputOf tc c.input past ∧ OutputOf tc c.expectedOutput past)
        fun _ _ => True) := by
  refine obeys_read (fun caseNo _ => ?_) fun _ _ _ => trivial
  refine triple_step (resolveInputRef_obeys tc) (fun _ _ _ => trivial) fun input => ?_
  refine triple_bind (outputOf_obeys tc (inputOf_lasts tc input)) fun output => ?_
  refine triple_bind (quiet_obeys ?_ (prepares_quiet (caseLimits_calls 3 tc problem)))
    fun limits => triple_ret fun past _ h => ⟨h.2, h.1⟩
  exact fun past t h => ⟨outputOf_lasts tc output past t h.1, inputOf_lasts tc input past t h.2⟩

/-- The program hands out declared data only. -/
abbrev KeepsToDeclared {α : Type} (payload : Value) (p : Judging α) : Prop :=
  (Declared payload).Obeys (fun _ => True) p (Post (fun _ _ => True) fun _ _ => True)

theorem quiet_declared {α : Type} {p : Judging α}
    (made : p.Calls fun op : SandboxOp => op.handsOut = false) : KeepsToDeclared payload p :=
  quiet_obeys (fun _ _ _ => trivial) made

theorem quiet_call {op : SandboxOp} (quiet : op.handsOut = false) :
    (call op).Calls fun op : SandboxOp => op.handsOut = false :=
  Program.calls_perform quiet

/-! ### The STANDARD mode -/

theorem declaredTests_of {list : Value} {tests : List Value}
    (hlist : payload.item "test_cases" = .ok list) (htests : list.elements = .ok tests) :
    declaredTests payload = .ok tests := by
  rw [declaredTests, hlist]
  exact htests

theorem caseOf_lasts (tc : Value) (c : JudgeCase) : Lasting (CaseOf tc c) := fun past t h =>
  ⟨inputOf_lasts tc c.input past t h.1, outputOf_lasts tc c.expectedOutput past t h.2⟩

theorem sandboxCases_lasts (tests : List Value) (cases : List JudgeCase) :
    Lasting (SandboxCases tests cases) :=
  fun past t h => h.imp fun tc c here => caseOf_lasts tc c past t here

theorem buildJudgeCases_obeys (problem : Value) (tests : List Value) :
    (Declared payload).Obeys (fun _ => True) (buildJudgeCases tests problem)
      (Post (SandboxCases tests) fun _ _ => True) := by
  have each : ∀ tc, (Declared payload).Obeys (fun _ => True) (buildJudgeCase problem tc)
      (Post (fun c past => True ∧ CaseOf tc c past) fun _ _ => True) := by
    refine fun tc => triple_post (buildJudgeCase_obeys problem tc) ?_
    rintro (e | c) past _ h
    · trivial
    · exact ⟨trivial, h⟩
  refine triple_post (obeys_mapM caseOf_lasts each tests) ?_
  rintro (e | cases) past _ h
  · trivial
  · exact h.2

theorem StandardMode.judge_declared (payload : Value) :
    KeepsToDeclared payload (StandardMode.judge payload) := by
  refine obeys_read (fun submissionId _ => ?_) fun _ _ _ => trivial
  refine obeys_read (fun problem _ => ?_) fun _ _ _ => trivial
  refine obeys_read (fun languageCfg _ => ?_) fun _ _ _ => trivial
  refine obeys_read (fun source _ => ?_) fun _ _ _ => trivial
  refine obeys_read (fun list hlist => ?_) fun _ _ _ => trivial
  refine obeys_read (fun tests htests => ?_) fun _ _ _ => trivial
  have declared := declaredTests_of hlist htests
  refine obeys_read (fun partialScore _ => ?_) fun _ _ _ => trivial
  refine triple_bind (quiet_declared (prepares_quiet
    (buildLanguagesConfig_calls languageCfg "main"))) fun language => ?_
  refine obeys_read (fun languageKey _ => ?_) fun _ _ _ => trivial
  refine triple_bind (buildJudgeCases_obeys problem tests) fun cases => ?_
  refine triple_ite (fun _ => triple_ret fun _ _ _ => trivial) fun _ => ?_
  refine obeys_read (fun hasBatch _ => ?_) fun _ _ _ => trivial
  refine triple_bind (quiet_obeys (sandboxCases_lasts tests cases) (quiet_call rfl)) fun client => ?_
  refine triple_bind (R := fun _ _ => True) (obeys_onRaise (E := fun _ _ => True) ?_ fun e =>
    quiet_declared (quiet_call rfl)) fun batch => ?_
  · refine triple_bind (quiet_obeys (sandboxCases_lasts tests cases) (quiet_call rfl)) fun _ => ?_
    refine triple_bind (quiet_obeys (sandboxCases_lasts tests cases) (quiet_call rfl)) fun _ => ?_
    refine triple_bind (quiet_obeys (sandboxCases_lasts tests cases) (quiet_call rfl))
      fun parallelism => ?_
    refine obeys_perform (fun past h => ⟨tests, declared, h⟩) ?_
    rintro past (e | batch) _
    · trivial
    · trivial
  · exact quiet_declared (Program.calls_tryFinally (Program.calls_lift _)
      (Program.calls_bind (quiet_call rfl) fun _ => quiet_call rfl))

/-! ### The SPECIAL_JUDGE mode -/

theorem expectedOrEmpty_obeys (tc : Value) (output : Option LoadedRef) :
    (Declared payload).Obeys (OutputOf tc output) (SpecialJudgeMode.expectedOrEmpty output)
      (Post (AnswerOf tc) fun _ _ => True) := by
  cases output with
  | some ref => exact triple_ret fun _ _ h => .inl h
  | none =>
      refine obeys_perform (fun _ _ => declared_quiet rfl) ?_
      rintro past (e | ref) h
      · trivial
      · exact .inr ⟨outputOf_lasts tc none past _ h,
          List.mem_append_right past (List.mem_singleton_self _)⟩

theorem SpecialJudgeMode.judgeCase_declared {tests : List Value}
    (declared : declaredTests payload = .ok tests) (session : SpecialJudgeMode.Session)
    (problem : Value) (points : ℚ) (tally : Tally) {tc : Value} (mem : tc ∈ tests) :
    KeepsToDeclared payload (SpecialJudgeMode.judgeCase session problem points tally tc) := by
  refine triple_bind (resolveInputRef_obeys tc) fun input => ?_
  refine triple_bind (outputOf_obeys tc (inputOf_lasts tc input)) fun output => ?_
  have loaded : Lasting fun past => OutputOf tc output past ∧ InputOf tc input past := fun past t h =>
    ⟨outputOf_lasts tc output past t h.1, inputOf_lasts tc input past t h.2⟩
  refine triple_bind (quiet_obeys loaded (prepares_quiet (caseLimits_calls 3 tc problem)))
    fun limits => ?_
  refine triple_bind (R := fun result past => (OutputOf tc output past ∧ InputOf tc input past) ∧
    ⟨.runProgram session.program.id input limits, .ok result⟩ ∈ past)
    (obeys_perform (fun past h => ⟨tests, declared, tc, mem, h.2⟩) ?_) fun result => ?_
  · rintro past (e | result) h
    · trivial
    · exact ⟨loaded past _ h, List.mem_append_right past (List.mem_singleton_self _)⟩
  refine triple_bind (R := fun actual past => (OutputOf tc output past ∧ InputOf tc input past) ∧
    PrintedOn input actual past) (obeys_perform (fun _ _ => declared_quiet rfl) ?_) fun actual => ?_
  · rintro past (e | actual) ⟨h, run⟩
    · trivial
    · exact ⟨loaded past _ h, _, _, result, List.mem_append_left _ run,
        List.mem_append_right past (List.mem_singleton_self _)⟩
  refine triple_bind (triple_pre (obeys_kept (F := fun past => InputOf tc input past ∧
    PrintedOn input actual past) ?_ (expectedOrEmpty_obeys tc output))
    fun past _ h => ⟨h.1.1, h.1.2, h.2⟩) fun answer => ?_
  · exact fun past t h => ⟨inputOf_lasts tc input past t h.1, printedOn_lasts input actual past t h.2⟩
  refine triple_bind (R := fun _ _ => True) (obeys_perform
    (fun past h => ⟨tests, declared, tc, mem, h.2.1, h.1, h.2.2⟩) ?_) fun accepted => ?_
  · rintro past (e | accepted) _
    · trivial
    · trivial
  refine obeys_read (fun caseNo _ => ?_) fun _ _ _ => trivial
  refine triple_bind (quiet_declared (quiet_call rfl)) fun stdoutRef => ?_
  refine triple_bind (quiet_declared (quiet_call rfl)) fun stderrRef => ?_
  exact triple_ret fun _ _ _ => trivial

theorem SpecialJudgeMode.judge_declared (payload : Value) :
    KeepsToDeclared payload (SpecialJudgeMode.judge payload) := by
  refine obeys_read (fun submissionId _ => ?_) fun _ _ _ => trivial
  refine obeys_read (fun problem _ => ?_) fun _ _ _ => trivial
  refine obeys_read (fun languageCfg _ => ?_) fun _ _ _ => trivial
  refine obeys_read (fun source _ => ?_) fun _ _ _ => trivial
  refine obeys_read (fun spjCfg _ => ?_) fun _ _ _ => trivial
  refine obeys_read (fun list hlist => ?_) fun _ _ _ => trivial
  refine obeys_read (fun checkerSource _ => ?_) fun _ _ _ => trivial
  refine triple_ite (fun _ => triple_ret fun _ _ _ => trivial) fun _ => ?_
  refine triple_bind (quiet_declared (prepares_quiet
    (buildLanguagesConfig_calls languageCfg "main"))) fun language => ?_
  refine obeys_read (fun languageKey _ => ?_) fun _ _ _ => trivial
  refine triple_bind (quiet_declared (quiet_call rfl)) fun checkerKey => ?_
  refine triple_bind (quiet_declared (quiet_call rfl)) fun _ => ?_
  refine triple_bind (quiet_declared (quiet_call rfl)) fun _ => ?_
  refine triple_bind (quiet_declared (quiet_call rfl)) fun _ => ?_
  refine triple_bind (quiet_declared (quiet_call rfl)) fun client => ?_
  refine triple_bind (quiet_declared (quiet_call rfl)) fun checkerClient => ?_
  extract_lets closeClients
  have closesClients : closeClients.Calls fun op : SandboxOp => op.handsOut = false :=
    Program.calls_bind (quiet_call rfl) fun _ => quiet_call rfl
  refine triple_bind (quiet_declared (Program.calls_onRaise (quiet_call rfl) closesClients))
    fun program => ?_
  extract_lets closeProgram
  have closesProgram : closeProgram.Calls fun op : SandboxOp => op.handsOut = false :=
    Program.calls_bind (quiet_call rfl) fun _ => closesClients
  generalize compileMetricsFromProcess program.compile = metrics
  obtain ⟨compileTimeMs, compileMemoryKb⟩ := metrics
  refine triple_ite (fun _ => ?_) fun _ => ?_
  · exact quiet_declared (Program.calls_bind closesProgram fun _ => trivial)
  refine triple_bind (quiet_declared (Program.calls_onRaise (Program.calls_bind (quiet_call rfl)
    fun _ => quiet_call rfl) closesProgram)) fun checkerProgram => ?_
  extract_lets closeAll
  have closesAll : closeAll.Calls fun op : SandboxOp => op.handsOut = false :=
    Program.calls_bind (quiet_call rfl) fun _ => closesProgram
  refine triple_ite (fun _ => ?_) fun _ => ?_
  · exact quiet_declared (Program.calls_bind closesAll fun _ => trivial)
  refine triple_bind (R := fun _ _ => True) (triple_tryFinally (R := fun _ _ => True)
    (E := fun _ _ => True) ?_ (fun _ => quiet_declared closesAll) fun _ =>
      quiet_declared closesAll) fun tally => triple_ret fun _ _ _ => trivial
  refine obeys_read (fun tests htests => ?_) fun _ _ _ => trivial
  refine obeys_read (fun points _ => ?_) fun _ _ _ => trivial
  exact triple_foldlM (I := fun _ _ => True) (fun tally tc mem =>
    judgeCase_declared (declaredTests_of hlist htests) _ problem points tally mem) _

/-! ### The INTERACTIVE mode -/

namespace InteractiveMode

/-- The calls of the guarded block of a case with this working directory. -/
def Covered (workDir : String) : SandboxOp → Prop
  | .runBoth request => request.workDir = workDir
  | op => op.handsOut = false

variable {α : Type} {workDir : String} {res : Resources}

theorem covered_quiet {op : SandboxOp} (quiet : op.handsOut = false) : Covered workDir op := by
  cases op <;> first
    | exact quiet
    | cases quiet

theorem covered_call {op : SandboxOp} (quiet : op.handsOut = false) :
    (call op).Calls (Covered workDir) :=
  Program.calls_perform (covered_quiet quiet)

theorem release_covered (res : Resources) : (release res).Calls (Covered workDir) := by
  have closes : ∀ (close : Nat → Judging Unit) (o : Option Nat),
      (∀ id, (close id).Calls (Covered workDir)) → (whenSome close o).Calls (Covered workDir) := by
    intro close o made
    cases o with
    | some id => exact made id
    | none => trivial
  rw [release_eq]
  refine Program.calls_bind (closes _ _ fun _ => covered_call rfl) fun _ => ?_
  refine Program.calls_bind (closes _ _ fun _ => covered_call rfl) fun _ => ?_
  refine Program.calls_bind (closes _ _ fun _ => covered_call rfl) fun _ => ?_
  refine Program.calls_bind (closes _ _ fun _ => covered_call rfl) fun _ => ?_
  refine Program.calls_bind (closes _ _ fun _ => covered_call rfl) fun _ => ?_
  exact Program.calls_bind (covered_call rfl) fun _ => covered_call rfl

theorem guarded_covered {p : Judging α} (hp : p.Calls (Covered workDir)) :
    (guarded res p).Calls (Covered workDir) :=
  Program.calls_onRaise hp (release_covered res)

theorem guarded_lift_covered (r : Except Exc α) :
    (guarded res (liftM r)).Calls (Covered workDir) :=
  guarded_covered (Program.calls_lift r)

theorem closeFifos_covered : (closeFifos res).Calls (Covered workDir) := by
  have closes : ∀ (res : Resources) (fd : Option Nat),
      (closeFd res fd).Calls (Covered workDir) := by
    intro res fd
    cases fd with
    | some fd => exact guarded_covered (covered_call rfl)
    | none => trivial
  exact Program.calls_bind (closes _ _) fun _ => Program.calls_bind (closes _ _) fun _ => trivial

theorem collectInteractor_covered (request : RunBoth) (race : Race) (t : ℚ) :
    (collectInteractor request race res t).Calls (Covered workDir) :=
  Program.calls_ite
    (fun _ => Program.calls_bind (guarded_lift_covered _) fun _ => trivial) fun _ => trivial

theorem runPrograms_covered (problem tc : Value) {request : RunBoth}
    (there : request.workDir = workDir) :
    (runPrograms problem tc res request).Calls (Covered workDir) := by
  refine Program.calls_bind (guarded_lift_covered _) fun timeout => ?_
  refine Program.calls_bind (guarded_covered (Program.calls_perform there)) fun answer => ?_
  refine Program.calls_bind (Program.calls_bind (collectInteractor_covered ..) fun _ =>
    Program.calls_ite (fun _ => closeFifos_covered) fun _ => trivial) fun res => ?_
  refine Program.calls_bind (Program.calls_bind (collectInteractor_covered ..) fun _ =>
    Program.calls_ite (fun _ => trivial) fun _ =>
      Program.calls_bind (guarded_lift_covered _) fun _ => closeFifos_covered) fun res => ?_
  refine Program.calls_bind (guarded_covered (Program.calls_bind (covered_call rfl)
    fun found => Program.calls_ite (fun _ => Program.calls_bind (covered_call rfl)
      fun _ => trivial) fun _ => trivial)) fun stderrText => ?_
  refine Program.calls_bind (guarded_lift_covered _) fun caseNo => ?_
  exact Program.calls_bind (release_covered _) fun _ => trivial

theorem settleUnrun_covered (tc : Value) (program : Prepared) (verdict : Verdict) (tally : Tally) :
    (settleUnrun tc res program verdict tally).Calls (Covered workDir) :=
  Program.calls_bind (guarded_lift_covered _) fun _ =>
    Program.calls_bind (guarded_lift_covered _) fun _ =>
      Program.calls_bind (release_covered res) fun _ => trivial

variable (setting : Setting) (tc : Value) (limits : JudgeLimits) (tally : Tally) (points : ℚ)

theorem runCase_covered (there : res.workDir = workDir) :
    (runCase setting tc limits res tally points).Calls (Covered workDir) := by
  refine Program.calls_bind (guarded_lift_covered _) fun interactorSource => ?_
  refine Program.calls_bind (guarded_covered (covered_call rfl)) fun program => ?_
  refine Program.calls_ite (fun _ => ?_) fun _ => settleUnrun_covered ..
  exact Program.calls_bind (runPrograms_covered _ _ there) fun _ => trivial

theorem compileAndRun_covered (there : res.workDir = workDir) :
    (compileAndRun setting tc limits res tally points).Calls (Covered workDir) := by
  rw [compileAndRun]
  split
  · refine Program.calls_ite (fun _ => ?_) fun _ => runCase_covered _ _ _ _ _ there
    refine Program.calls_bind (guarded_covered (covered_call rfl)) fun program => ?_
    exact Program.calls_ite (fun _ => runCase_covered _ _ _ _ _ there)
      fun _ => settleUnrun_covered ..
  · exact runCase_covered _ _ _ _ _ there

/-- The input of the case is in its working directory. -/
def InputInPlace (tc : Value) (workDir : String) (past : History) : Prop :=
  ∃ ref, InputOf tc ref past ∧ Written ref (workDir ++ "/input.txt") past

theorem inputInPlace_stays {op : SandboxOp} {past : History} (quiet : op.writesFile = false)
    (answer : Except Exc op.Answer) (h : InputInPlace tc workDir past) :
    InputInPlace tc workDir (past ++ [⟨op, answer⟩]) := by
  obtain ⟨ref, input, before, write, r, after, rfl, writes, last⟩ := h
  refine ⟨ref, inputOf_lasts tc ref _ _ input, before, write, r, after ++ [⟨op, answer⟩], ?_,
    writes, ?_⟩
  · simp
  · intro e mem
    rcases List.mem_append.mp mem with here | here
    · exact last e here
    · rw [List.mem_singleton.mp here]
      exact quiet

variable {tests : List Value}

/-- From the moment the input is in place nothing but the two programs uses it. -/
theorem inPlace_obeys (declared : declaredTests payload = .ok tests) (mem : tc ∈ tests)
    {p : Judging α} (made : p.Calls (Covered workDir)) :
    (Declared payload).Obeys (InputInPlace tc workDir) p
      (Post (fun _ => InputInPlace tc workDir) fun _ => InputInPlace tc workDir) := by
  have unwritten : ∀ op, Covered workDir op → op.writesFile = false := by
    intro op covered
    cases op <;> first | rfl | exact covered
  refine obeys_calls made (fun op past covered h => ?_) fun op past answer covered h =>
    inputInPlace_stays tc (unwritten op covered) answer h
  obtain ⟨ref, input, written⟩ := h
  cases op with
  | runBoth request =>
      have there : request.workDir = workDir := covered
      exact ⟨tests, declared, tc, mem, ref, input, there ▸ written⟩
  | _ => exact declared_quiet covered

theorem write_obeys (declared : declaredTests payload = .ok tests) (mem : tc ∈ tests)
    {ref : LoadedRef} {op : SandboxOp} (writes : Writes ref (workDir ++ "/input.txt") op) :
    (Declared payload).Obeys (InputOf tc ref) (call op)
      (Post (fun _ => InputInPlace tc workDir) fun _ _ => True) := by
  refine obeys_perform (fun past h => ?_) ?_
  · cases op with
    | copyFile source target => exact fun _ => ⟨tests, declared, tc, mem, ref, _, h, writes⟩
    | writeBytes path data => exact fun _ => ⟨tests, declared, tc, mem, ref, _, h, writes⟩
    | writeText path text => exact fun _ => ⟨tests, declared, tc, mem, ref, _, h, writes⟩
    | _ => exact writes.elim
  · rintro past (e | r) h
    · trivial
    · exact ⟨ref, inputOf_lasts tc ref past _ h, past, op, r, [], rfl, writes, by simp⟩

theorem writeInput_obeys (declared : declaredTests payload = .ok tests) (mem : tc ∈ tests)
    (ref : LoadedRef) :
    (Declared payload).Obeys (InputOf tc ref) (writeInput ref (workDir ++ "/input.txt"))
      (Post (fun _ => InputInPlace tc workDir) fun _ _ => True) := by
  have inline : ref.path.getD "" = "" → (Declared payload).Obeys (InputOf tc ref)
      (writeInput.writeData (workDir ++ "/input.txt") ref.data)
      (Post (fun _ => InputInPlace tc workDir) fun _ _ => True) := by
    intro pathless
    cases data : ref.data with
    | bytes bytes => exact write_obeys tc declared mem ⟨pathless, data, rfl⟩
    | str text => exact write_obeys tc declared mem ⟨pathless, .inl data, rfl⟩
    | none => exact write_obeys tc declared mem ⟨pathless, .inr ⟨data, rfl⟩, rfl⟩
  rw [writeInput]
  split
  · next path data hpath =>
      refine triple_ite (fun named => ?_) fun unnamed => ?_
      · exact write_obeys tc declared mem ⟨hpath, named, rfl⟩
      · refine inline ?_
        rw [hpath]
        exact not_not.mp unnamed
  · next data hpath => exact inline (by rw [hpath]; rfl)

theorem judgeCase_declared (declared : declaredTests payload = .ok tests) (mem : tc ∈ tests) :
    KeepsToDeclared payload (judgeCase setting points tally tc) := by
  refine triple_bind (resolveInputRef_obeys tc) fun ref => ?_
  refine triple_bind (quiet_obeys (inputOf_lasts tc ref)
    (prepares_quiet (caseLimits_calls 5 tc setting.problem))) fun limits => ?_
  refine triple_bind (quiet_obeys (inputOf_lasts tc ref) (quiet_call rfl)) fun workDir => ?_
  refine triple_bind (writeInput_obeys tc declared mem ref) fun _ => ?_
  refine triple_post (inPlace_obeys tc declared mem ?_) ?_
  · refine Program.calls_bind (covered_call rfl) fun _ => ?_
    refine Program.calls_bind (covered_call rfl) fun _ => ?_
    refine Program.calls_bind (covered_call rfl) fun fdAB => ?_
    refine Program.calls_bind (covered_call rfl) fun fdBA => ?_
    refine Program.calls_bind ?_ fun userClient => ?_
    · cases setting.languages with
      | some languages => exact Program.calls_bind (covered_call rfl) fun _ => trivial
      | none => trivial
    refine Program.calls_bind (covered_call rfl) fun interactorClient => ?_
    exact compileAndRun_covered _ _ _ _ _ rfl
  · rintro (e | tally) _ _ _
    · trivial
    · trivial

theorem judge_declared (payload : Value) :
    KeepsToDeclared payload (InteractiveMode.judge payload) := by
  refine obeys_read (fun submissionId _ => ?_) fun _ _ _ => trivial
  refine obeys_read (fun problem _ => ?_) fun _ _ _ => trivial
  refine obeys_read (fun interactorCfg _ => ?_) fun _ _ _ => trivial
  refine obeys_read (fun source _ => ?_) fun _ _ _ => trivial
  refine obeys_read (fun list hlist => ?_) fun _ _ _ => trivial
  refine obeys_read (fun languageCfg _ => ?_) fun _ _ _ => trivial
  refine obeys_read (fun interactorSource _ => ?_) fun _ _ _ => trivial
  refine triple_ite (fun _ => triple_ret fun _ _ _ => trivial) fun _ => ?_
  refine triple_bind (R := fun _ _ => True) ?_ fun languages => ?_
  · refine quiet_declared (Program.calls_ite (fun _ => ?_) fun _ => trivial)
    exact Program.calls_bind (prepares_quiet (buildLanguagesConfig_calls languageCfg "main"))
      fun _ => trivial
  refine obeys_read (fun languageKey _ => ?_) fun _ _ _ => trivial
  refine obeys_read (fun interactorLanguage _ => ?_) fun _ _ _ => trivial
  refine triple_bind (quiet_declared (prepares_quiet
    (buildLanguagesConfig_calls interactorLanguage "interactor"))) fun interactorLanguages => ?_
  refine obeys_read (fun interactorKey _ => ?_) fun _ _ _ => trivial
  refine triple_bind (quiet_declared (quiet_call rfl)) fun _ => ?_
  refine triple_bind (quiet_declared (quiet_call rfl)) fun _ => ?_
  refine obeys_read (fun tests htests => ?_) fun _ _ _ => trivial
  refine obeys_read (fun points _ => ?_) fun _ _ _ => trivial
  refine triple_bind (triple_foldlM (I := fun _ _ => True) (fun tally tc mem =>
    judgeCase_declared _ tc tally points (declaredTests_of hlist htests) mem) _) fun tally =>
      triple_ret fun _ _ _ => trivial

end InteractiveMode

/-! ### A request -/

theorem judge_declared (payload : Value) : KeepsToDeclared payload (judge payload) := by
  refine obeys_read (fun judgeMode _ => ?_) fun _ _ _ => trivial
  refine obeys_read (fun _ _ => ?_) fun _ _ _ => trivial
  refine triple_bind (quiet_declared (quiet_call rfl)) fun start => ?_
  refine triple_bind (R := fun _ _ => True) (triple_tryCatch (E := fun _ _ => True) ?_
    fun e => ?_) fun result => ?_
  · refine obeys_read (fun mode dispatched => ?_) fun _ _ _ => trivial
    rcases modeOf_cases dispatched with rfl | rfl | rfl
    · exact StandardMode.judge_declared payload
    · exact SpecialJudgeMode.judge_declared payload
    · exact InteractiveMode.judge_declared payload
  · exact quiet_declared (Program.calls_bind (Program.calls_lift _) fun _ =>
      Program.calls_bind (quiet_call rfl) fun _ => trivial)
  · exact quiet_declared (Program.calls_bind (quiet_call rfl) fun _ => trivial)

end Facts

/-- Whatever a request is and whatever the outside answers, the judge hands out test data only as
the test cases of the request declare it, with files found in the same run and of the declared
digest: every call is made on declared data, in view of the calls before it. -/
theorem judged_on_declared_data (pydantic : Pydantic) (payload : Value) (t : History)
    (out : Except Exc (JudgeResult ℚ)) (yields : (executeJudge pydantic payload).Yields t out) :
    ∀ t₁ e t₂, t = t₁ ++ e :: t₂ → Declared payload t₁ e.op := by
  refine (Policy.obeys_yields (P := fun _ => True) (Q := fun _ _ => True) ?_ trivial yields).1
  rw [executeJudge]
  split
  · exact Discipline.triple_ret fun _ _ _ => trivial
  · exact Discipline.triple_step (judge_declared payload) (fun _ _ _ => trivial) fun result =>
      Discipline.triple_lift (fun _ _ _ _ _ => trivial) fun _ _ _ _ _ => trivial

/-- A storage that has every file, each with the digest `aa`. -/
def storedWorld : World Unit
  | .resolveFile .., s => (.ok (some "/data/1.in"), s)
  | .pathExists _, s => (.ok true, s)
  | .refFromPath path, s => (.ok ⟨⟨some path, .none⟩, "aa", ""⟩, s)
  | op, s => StandardMode.printingWorld "1" op s

def storedCase : Value :=
  .dict [("case_no", .int 1), ("input_file", .str "1.in"), ("input_sha256", .str "aa")]

def storedRun : History :=
  (executeJudge plainPydantic (StandardMode.requestWorth 100 true [storedCase])).trace storedWorld ()

/-- The run of a case whose input is in the storage. -/
theorem judged_on_declared_data_stored : ∃ e, storedRun[11]? = some e ∧ e.op.handsOut = true ∧
    Declared (StandardMode.requestWorth 100 true [storedCase]) (storedRun.take 11) e.op := by
  have handed : storedRun[11]?.map (fun e => e.op.handsOut) = some true := by decide +kernel
  obtain ⟨e, here, hands⟩ := Option.map_eq_some_iff.mp handed
  refine ⟨e, here, hands, ?_⟩
  have split : storedRun = storedRun.take 11 ++ e :: storedRun.drop 12 := by
    obtain ⟨inside, rfl⟩ := List.getElem?_eq_some_iff.mp here
    simp
  exact judged_on_declared_data plainPydantic _ storedRun _ (Program.yields_trace storedWorld _ ())
    _ _ _ split

end AcojWorker
