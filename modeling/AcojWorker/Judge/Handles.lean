import AcojWorker.Effect.History
import AcojWorker.Judge.TestData

/-!
# What the sandbox hands out

Clients, prepared programs, batches, FIFO descriptors and working directories are used only
while they are open, each is closed at most as often as it was opened, and only programs that
compiled are run. When a request has been judged everything is closed again, with one
exception: a call by which something more is acquired, and which fails while something is
held and no clean-up covers it yet, leaves what is held behind.
-/

namespace AcojWorker

open Python Effect

/-! ### Batches -/

/-- The results of a batch stay in the sandbox until it is closed. -/
def batchLedger : Ledger Sandbox Exc Nat where
  opens
    | ⟨.runCases _, .ok batch⟩ => {batch.id}
    | _ => 0
  closes
    | ⟨.closeBatch batch, .ok _⟩ => {batch}
    | _ => 0
  expected _ := True

/-! ### Programs -/

/-- What a call tells about a program: it was prepared, and did it compile? -/
def compiledAs (program : Nat) : Event Sandbox Exc → Option Bool
  | ⟨.prepareSource _, .ok prepared⟩ =>
      if prepared.id = program then some prepared.compiled else none
  | _ => none

/-- The program compiled when it was last prepared. -/
def Compiled (program : Nat) (past : Trace Sandbox Exc) : Prop :=
  (past.filterMap (compiledAs program)).getLast? = some true

def Runnable (program : Nat) (past : Trace Sandbox Exc) : Prop :=
  ledger.Open (.program program) past ∧ Compiled program past

/-! ### Calls on open handles -/

def Usable : Policy Sandbox Exc
  | past, .runCases request => ledger.Open (.client request.client) past
  | past, .prepareSource request => ledger.Open (.client request.client) past
  | past, .runProgram program .. => Runnable program past
  | past, .runTestlibChecker request =>
      ledger.Open (.client request.client) past ∧ Runnable request.preparedChecker past
  | past, .runBoth request => ledger.Open (.workDir request.workDir) past ∧
      Runnable request.interactorProgram past ∧
        ∀ program, request.userProgram = some program → Runnable program past
  | past, .closeBatch batch => batchLedger.Open batch past
  | past, .closeClient client => ledger.Open (.client client) past
  | past, .closeProgram program => ledger.Open (.program program) past
  | past, .closeFd fd => ledger.Open (.fifo fd) past
  | past, .rmtree path => ledger.Open (.workDir path) past
  | _, _ => True

/-- A call failed by which something is acquired, while something was held already. -/
def Leaks (t : Trace Sandbox Exc) : Prop :=
  ∃ t₁ e t₂, t = t₁ ++ e :: t₂ ∧ e.op.acquires = true ∧ e.raised = true ∧ ¬ ledger.Released t₁

def SandboxOp.closesHandle : SandboxOp → Bool
  | closeBatch _ => true
  | op => op.cleansUp

/-- When the judge is done: if the clean-up succeeded, everything is closed, unless a call
failed by which more was to be acquired. -/
def Settled (t : Trace Sandbox Exc) : Prop :=
  (∀ e ∈ t, e.op.closesHandle = true → e.raised = false) →
    ((ledger.Released t ∧ batchLedger.Released t) ↔ ¬ Leaks t)

/-- What is held while a request is judged, and the programs that can be run. -/
structure Holding (held : Multiset Resource) (batch : Multiset Nat) (programs : List Nat)
    (past : Trace Sandbox Exc) : Prop where
  resources : ledger.Holds held past
  batches : batchLedger.Holds batch past
  kept : ¬ Leaks past
  compiled : ∀ program ∈ programs, Compiled program past

/-- The calls that neither open nor close anything, nor acquire or prepare what will be used. -/
def SandboxOp.inert : SandboxOp → Bool
  | createClient _ | closeClient _ | prepareSource _ | closeProgram _ | runCases _ | closeBatch _
  | mkdtemp | rmtree _ | copyFile .. | writeBytes .. | writeText .. | mkfifo _ | openFifo _
  | closeFd _ => false
  | _ => true

/-- The calls that use nothing the sandbox has handed out. -/
def SandboxOp.plain : SandboxOp → Bool
  | runProgram .. | runTestlibChecker _ | runBoth _ => false
  | op => op.inert

section Rules

open Policy Discipline

variable {α : Type} {held : Multiset Resource} {batch : Multiset Nat} {programs : List Nat}
  {past : Trace Sandbox Exc} {op : SandboxOp}

/-! ### Leaks -/

theorem leaks_concat {e : Event Sandbox Exc} : Leaks (past ++ [e]) ↔
    Leaks past ∨ (e.op.acquires = true ∧ e.raised = true ∧ ¬ ledger.Released past) := by
  constructor
  · rintro ⟨t₁, f, t₂, split, leak⟩
    obtain rfl | ⟨t₂, last, rfl⟩ := List.eq_nil_or_concat t₂
    · obtain ⟨rfl, same⟩ := List.append_inj' split rfl
      obtain rfl := List.singleton_inj.mp same
      exact .inr leak
    · rw [List.concat_eq_append, ← List.cons_append, ← List.append_assoc] at split
      obtain ⟨rfl, -⟩ := List.append_inj' split rfl
      exact .inl ⟨t₁, f, t₂, rfl, leak⟩
  · rintro (⟨t₁, f, t₂, rfl, leak⟩ | leak)
    · exact ⟨t₁, f, t₂ ++ [e], by simp, leak⟩
    · exact ⟨past, e, [], rfl, leak⟩

theorem kept_next {e : Event Sandbox Exc} (kept : ¬ Leaks past)
    (covered : e.op.acquires = false ∨ e.raised = false) : ¬ Leaks (past ++ [e]) := by
  rw [leaks_concat]
  rintro (leak | ⟨acquires, raised, -⟩)
  · exact kept leak
  · rcases covered with acquired | answered
    · rw [acquires] at acquired
      cases acquired
    · rw [raised] at answered
      cases answered

/-! ### The end -/

theorem Holding.settled (holding : Holding 0 0 programs past) : Settled past :=
  fun _ => iff_of_true ⟨(Ledger.released_iff_holds holding.resources).mpr rfl,
    (Ledger.released_iff_holds holding.batches).mpr rfl⟩ holding.kept

/-- A clean-up that fails excuses everything. -/
theorem settled_failed {answer : Except Exc op.Answer} (closes : op.closesHandle = true)
    (failed : answer.isOk = false) : Settled (past ++ [⟨op, answer⟩]) := by
  intro succeeded
  have here := succeeded ⟨op, answer⟩ (List.mem_append_right past (List.mem_singleton_self _)) closes
  rw [Event.raised, failed] at here
  cases here

theorem inert_quiet (inert : op.inert = true) (answer : Except Exc op.Answer) :
    (opens ⟨op, answer⟩ = 0 ∧ closes ⟨op, answer⟩ = 0) ∧
      (batchLedger.opens ⟨op, answer⟩ = 0 ∧ batchLedger.closes ⟨op, answer⟩ = 0) ∧
      op.acquires = false ∧ ∀ program, compiledAs program ⟨op, answer⟩ = none := by
  cases op <;> first
    | cases inert; done
    | exact ⟨⟨rfl, rfl⟩, ⟨rfl, rfl⟩, rfl, fun _ => rfl⟩

theorem compiled_next {program : Nat} {e : Event Sandbox Exc} (compiled : Compiled program past)
    (other : compiledAs program e ≠ some false) : Compiled program (past ++ [e]) := by
  rw [Compiled, List.filterMap_append]
  cases told : compiledAs program e with
  | none =>
      have nothing : [e].filterMap (compiledAs program) = [] := by simp [told]
      rw [nothing, List.append_nil]
      exact compiled
  | some answer =>
      cases answer with
      | true => simp [told]
      | false => exact absurd told other

theorem Holding.next {e : Event Sandbox Exc} {held' : Multiset Resource} {batch' : Multiset Nat}
    (holding : Holding held batch programs past) (resources : opens e + held = closes e + held')
    (batched : batchLedger.opens e + batch = batchLedger.closes e + batch')
    (covered : e.op.acquires = false ∨ e.raised = false)
    (untold : ∀ program, compiledAs program e = none) :
    Holding held' batch' programs (past ++ [e]) where
  resources := Ledger.holds_next holding.resources resources
  batches := Ledger.holds_next holding.batches batched
  kept := kept_next holding.kept covered
  compiled program mem := compiled_next (holding.compiled program mem) (by simp [untold])

theorem Holding.inert (holding : Holding held batch programs past) (inert : op.inert = true)
    (answer : Except Exc op.Answer) : Holding held batch programs (past ++ [⟨op, answer⟩]) := by
  obtain ⟨⟨opens, closes⟩, ⟨opens', closes'⟩, acquires, untold⟩ := inert_quiet inert answer
  exact holding.next (by rw [opens, closes]) (by rw [opens', closes']) (.inl acquires) untold

theorem Settled.inert (settled : Settled past) (inert : op.inert = true)
    (answer : Except Exc op.Answer) : Settled (past ++ [⟨op, answer⟩]) := by
  obtain ⟨⟨opens, closes⟩, ⟨opens', closes'⟩, acquires, -⟩ := inert_quiet inert answer
  have released : ∀ {ρ : Type} (L : Ledger Sandbox Exc ρ), L.opens ⟨op, answer⟩ = 0 →
      L.closes ⟨op, answer⟩ = 0 → (L.Released (past ++ [⟨op, answer⟩]) ↔ L.Released past) := by
    intro ρ L opens closes
    simp [Ledger.Released, Ledger.opened, Ledger.closed, opens, closes]
  intro succeeded
  rw [released ledger opens closes, released batchLedger opens' closes', leaks_concat, acquires]
  simpa using settled fun e mem => succeeded e (List.mem_append_left _ mem)

/-! ### Calls -/

theorem usable_plain (plain : op.plain = true) : Usable past op := by
  cases op <;> first
    | cases plain; done
    | trivial

theorem inert_of_plain (plain : op.plain = true) : op.inert = true := by
  cases op <;> first
    | cases plain; done
    | rfl

/-- A call that uses what is held and changes nothing. -/
theorem obeys_inert (inert : op.inert = true)
    (usable : ∀ past, Holding held batch programs past → Usable past op) :
    Usable.Obeys (Holding held batch programs) (call op)
      (Post (fun _ => Holding held batch programs) fun _ => Holding held batch programs) := by
  refine obeys_perform usable ?_
  rintro past (e | r) holding
  · exact holding.inert inert _
  · exact holding.inert inert _

theorem obeys_plain {p : Judging α} (made : p.Calls fun op : SandboxOp => op.plain = true) :
    Usable.Obeys (Holding held batch programs) p
      (Post (fun _ => Holding held batch programs) fun _ => Holding held batch programs) :=
  obeys_calls made (fun _ _ plain _ => usable_plain plain) fun _ _ answer plain holding =>
    holding.inert (inert_of_plain plain) answer

/-- More is acquired; what is held is left behind if that fails. -/
theorem obeys_acquire (opening : op.Answer → Multiset Resource) (acquires : op.acquires = true)
    (opened : ∀ r, opens ⟨op, .ok r⟩ = opening r) (programs : List Nat) :
    Usable.Obeys (Holding held 0 programs) (call op)
      (Post (fun r => Holding (opening r + held) 0 programs) fun _ => Settled) := by
  have usable : ∀ past, Usable past op := by
    intro past
    cases op <;> first
      | cases acquires; done
      | trivial
  have quiet : (∀ answer, closes ⟨op, answer⟩ = 0 ∧ batchLedger.opens ⟨op, answer⟩ = 0 ∧
      batchLedger.closes ⟨op, answer⟩ = 0 ∧ ∀ program, compiledAs program ⟨op, answer⟩ = none) ∧
      ∀ e, opens ⟨op, .error e⟩ = 0 := by
    cases op <;> first
      | cases acquires; done
      | exact ⟨fun _ => ⟨rfl, rfl, rfl, fun _ => rfl⟩, fun _ => rfl⟩
  refine obeys_perform (fun past _ => usable past) ?_
  rintro past (e | r) holding
  · intro _
    obtain ⟨closed, opens', closes', -⟩ := quiet.1 (.error e)
    have resources := Ledger.holds_quiet holding.resources ⟨quiet.2 e, closed⟩
    have batched := Ledger.holds_quiet holding.batches ⟨opens', closes'⟩
    rw [leaks_concat, Ledger.released_iff_holds resources, Ledger.released_iff_holds batched,
      Ledger.released_iff_holds holding.resources]
    simp [holding.kept, acquires, Event.raised, Except.isOk, Except.toBool]
  · obtain ⟨closed, opens', closes', untold⟩ := quiet.1 (.ok r)
    exact holding.next (by rw [opened, closed, zero_add]) (by rw [opens', closes']) (.inr rfl) untold

theorem obeys_mkdtemp : Usable.Obeys (Holding 0 0 []) (call .mkdtemp)
    (Post (fun path => Holding {.workDir path} 0 []) fun _ => Settled) := by
  refine obeys_perform (fun _ _ => trivial) ?_
  rintro past (e | path) holding
  · have same : Holding 0 0 [] (past ++ [⟨.mkdtemp, .error e⟩]) :=
      holding.next rfl rfl (.inl rfl) fun _ => rfl
    exact same.settled
  · exact holding.next rfl rfl (.inl rfl) fun _ => rfl

/-- A program is prepared; it can be run if it compiled. -/
theorem obeys_prepare (request : PrepareSource) (client : .client request.client ∈ held) :
    Usable.Obeys (Holding held batch programs) (call (.prepareSource request))
      (Post (fun prepared => Holding ({.program prepared.id} + held) batch
          (if prepared.compiled then prepared.id :: programs else []))
        fun _ => Holding held batch programs) := by
  refine obeys_perform (fun past holding => Ledger.open_of_holds holding.resources client) ?_
  rintro past (e | prepared) holding
  · exact holding.next rfl rfl (.inl rfl) fun _ => rfl
  · refine ⟨Ledger.holds_next holding.resources (zero_add _).symm,
      Ledger.holds_quiet holding.batches ⟨rfl, rfl⟩, kept_next holding.kept (.inl rfl), ?_⟩
    by_cases compiled : prepared.compiled
    · rw [if_pos compiled]
      intro program mem
      rcases List.mem_cons.mp mem with rfl | mem
      · simp [Compiled, compiledAs, compiled]
      · refine compiled_next (holding.compiled program mem) ?_
        simp only [compiledAs]
        split
        · simp [compiled]
        · simp
    · rw [if_neg compiled]
      exact nofun

/-- The call that closes a resource. -/
def Resource.closing : Resource → SandboxOp
  | .fifo id => .closeFd id
  | .client id => .closeClient id
  | .program id => .closeProgram id
  | .workDir dir => .rmtree dir

/-- What is closed is open, and stays open if that fails. -/
theorem obeys_close (r : Resource) :
    Usable.Obeys (Holding ({r} + held) batch programs) (call r.closing)
      (Post (fun _ => Holding held batch programs) fun _ past =>
        Holding ({r} + held) batch programs past ∧ Settled past) := by
  have usable : ∀ past, ledger.Open r past → Usable past r.closing := by
    intro past still
    cases r <;> exact still
  have quiet : ∀ answer, opens ⟨r.closing, answer⟩ = 0 ∧ batchLedger.opens ⟨r.closing, answer⟩ = 0 ∧
      batchLedger.closes ⟨r.closing, answer⟩ = 0 ∧
        ∀ program, compiledAs program ⟨r.closing, answer⟩ = none := by
    cases r <;> exact fun _ => ⟨rfl, rfl, rfl, fun _ => rfl⟩
  have uncovered : r.closing.acquires = false := by
    cases r <;> rfl
  refine obeys_perform (fun past holding => usable past
    (Ledger.open_of_holds holding.resources (by simp))) ?_
  rintro past (e | a) holding
  · obtain ⟨opened, opens', closes', untold⟩ := quiet (.error e)
    have failed : closes ⟨r.closing, .error e⟩ = 0 ∧ r.closing.closesHandle = true := by
      cases r <;> exact ⟨rfl, rfl⟩
    refine ⟨holding.next ?_ (by rw [opens', closes']) (.inl uncovered) untold,
      settled_failed failed.2 rfl⟩
    rw [opened, failed.1]
  · obtain ⟨opened, opens', closes', untold⟩ := quiet (.ok a)
    have closed : closes ⟨r.closing, .ok a⟩ = {r} := by
      cases r <;> rfl
    exact holding.next (by rw [opened, closed, zero_add]) (by rw [opens', closes'])
      (.inl uncovered) untold

def Resource.close : Resource → Judging Unit
  | .fifo id => call (.closeFd id)
  | .client id => call (.closeClient id)
  | .program id => call (.closeProgram id)
  | .workDir dir => call (.rmtree dir)

theorem close_holds (r : Resource) :
    Usable.Obeys (Holding ({r} + held) batch programs) r.close
      (Post (fun _ => Holding held batch programs) fun _ past =>
        Holding ({r} + held) batch programs past ∧ Settled past) := by
  cases r <;> exact obeys_close _

theorem obeys_closeBatch (id : Nat) :
    Usable.Obeys (Holding held {id} programs) (call (.closeBatch id))
      (Post (fun _ => Holding held 0 programs) fun _ => Settled) := by
  refine obeys_perform (fun past holding =>
    Ledger.open_of_holds holding.batches (Multiset.mem_singleton_self id)) ?_
  rintro past (e | a) holding
  · exact settled_failed rfl rfl
  · exact holding.next rfl rfl (.inl rfl) fun _ => rfl

theorem obeys_runCases (request : RunCases) (client : .client request.client ∈ held) :
    Usable.Obeys (Holding held 0 programs) (call (.runCases request))
      (Post (fun batch => Holding held {batch.id} programs) fun _ => Holding held 0 programs) := by
  refine obeys_perform (fun past holding => Ledger.open_of_holds holding.resources client) ?_
  rintro past (e | batch) holding
  · exact holding.next rfl rfl (.inl rfl) fun _ => rfl
  · exact holding.next rfl rfl (.inl rfl) fun _ => rfl

/-! ### The STANDARD mode -/

/-- A clean-up after which nothing is held. -/
abbrev Cleans {α : Type} (held : Multiset Resource) (programs : List Nat) (p : Judging α) : Prop :=
  Usable.Obeys (Holding held 0 programs) p (Post (fun _ => Holding 0 0 []) fun _ => Settled)

theorem cleans_settles {p : Judging α} (cleans : Cleans held programs p) :
    Usable.Obeys (Holding held 0 programs) p (Post (fun _ => Settled) fun _ => Settled) := by
  refine triple_post cleans ?_
  rintro (e | a) past _ h
  · exact h
  · exact h.settled

theorem cleans_last (r : Resource) : Cleans ({r} + 0) programs r.close := by
  refine triple_post (close_holds r) ?_
  rintro (e | a) past _ h
  · exact h.2
  · exact ⟨h.resources, h.batches, h.kept, nofun⟩

theorem cleans_next (r : Resource) {rest : Judging α} (hrest : Cleans held programs rest) :
    Cleans ({r} + held) programs (r.close >>= fun _ => rest) :=
  triple_step (close_holds r) (fun _ _ h => h.2) fun _ => hrest

/-- Judged from nothing held, everything is settled in the end. -/
abbrev Tidy {α : Type} (p : Judging α) : Prop :=
  Usable.Obeys (Holding 0 0 []) p fun _ => Settled

theorem tidy_read {β : Type} {x : Except Exc β} {f : β → Judging α}
    (ok : ∀ b, x = .ok b → Tidy (f b)) : Tidy (liftM x >>= f) := by
  cases x with
  | ok b => exact ok b rfl
  | error e => exact triple_raise fun _ _ holding => holding.settled

theorem tidy_ret (a : α) : Tidy (.ret a) := triple_ret fun _ _ holding => holding.settled

theorem tidy_plain {β : Type} {p : Judging β} {f : β → Judging α}
    (made : p.Calls fun op : SandboxOp => op.plain = true) (hf : ∀ b, Tidy (f b)) :
    Tidy (p >>= f) :=
  triple_step (obeys_plain made) (fun _ _ holding => holding.settled) hf

theorem plain_call (plain : op.plain = true) : (call op).Calls fun op : SandboxOp => op.plain = true :=
  Program.calls_perform plain

theorem plain_of_prepares {p : Judging α} (made : p.Calls SandboxOp.PreparesRequest) :
    p.Calls fun op : SandboxOp => op.plain = true :=
  Program.calls_mono made fun op prepares => by
    cases op <;> first | rfl | exact prepares.elim

theorem StandardMode.judge_tidy (payload : Value) : Tidy (StandardMode.judge payload) := by
  refine tidy_read fun submissionId _ => tidy_read fun problem _ => ?_
  refine tidy_read fun languageCfg _ => tidy_read fun source _ => ?_
  refine tidy_read fun list _ => tidy_read fun tests _ => tidy_read fun partialScore _ => ?_
  refine tidy_plain (plain_of_prepares (buildLanguagesConfig_calls languageCfg "main"))
    fun language => ?_
  refine tidy_read fun languageKey _ => ?_
  refine tidy_plain (plain_of_prepares (buildJudgeCases_calls tests problem)) fun cases => ?_
  refine triple_ite (fun _ => tidy_ret _) fun _ => tidy_read fun hasBatch _ => ?_
  refine triple_bind (obeys_acquire (fun client => {.client client}) rfl (fun _ => rfl) [])
    fun (client : Nat) => ?_
  have closeClient : Cleans ({.client client} + 0) [] (call (.closeClient client)) :=
    cleans_last (.client client)
  refine triple_bind (R := fun (batch : BatchAnswer) => Holding ({.client client} + 0) {batch.id} [])
    (obeys_onRaise (E := fun _ => Holding ({.client client} + 0) 0 []) ?_ fun e =>
      cleans_settles closeClient) fun batch => ?_
  · refine triple_bind (obeys_plain (plain_call rfl)) fun _ => ?_
    refine triple_bind (obeys_plain (plain_call rfl)) fun _ => ?_
    refine triple_bind (obeys_plain (plain_call rfl)) fun parallelism => ?_
    exact obeys_runCases _ (by simp)
  · have cleanup : Usable.Obeys (Holding ({.client client} + 0) {batch.id} []) (do
        call (.closeBatch batch.id)
        call (.closeClient client)) (Post (fun _ => Settled) fun _ => Settled) :=
      triple_bind (obeys_closeBatch batch.id) fun _ => cleans_settles closeClient
    exact triple_tryFinally (R := fun _ => Holding ({Resource.client client} + 0) {batch.id} [])
      (E := fun _ => Holding ({Resource.client client} + 0) {batch.id} [])
      (triple_lift (fun _ _ _ _ h => h) fun _ _ _ _ h => h) (fun _ => cleanup) fun _ => cleanup

/-! ### The SPECIAL_JUDGE mode -/

namespace SpecialJudgeMode

theorem judgeCase_holds (session : Session) (problem : Value) (points : ℚ) (tally : Tally)
    (tc : Value) (client : .client session.client ∈ held)
    (program : .program session.program.id ∈ held ∧ session.program.id ∈ programs)
    (checker : .program session.checkerProgram.id ∈ held ∧ session.checkerProgram.id ∈ programs) :
    Usable.Obeys (Holding held 0 programs) (judgeCase session problem points tally tc)
      (Post (fun _ => Holding held 0 programs) fun _ => Holding held 0 programs) := by
  have runnable : ∀ {id past}, .program id ∈ held ∧ id ∈ programs → Holding held 0 programs past →
      Runnable id past := fun mem holding =>
    ⟨Ledger.open_of_holds holding.resources mem.1, holding.compiled _ mem.2⟩
  refine triple_bind (obeys_plain (plain_of_prepares (resolveInputRef_calls tc))) fun input => ?_
  refine triple_bind (obeys_plain (plain_of_prepares (resolveOutputRef_calls tc))) fun output => ?_
  refine triple_bind (obeys_plain (plain_of_prepares (caseLimits_calls 3 tc problem)))
    fun limits => ?_
  refine triple_bind (obeys_inert rfl fun _ holding => runnable program holding) fun result => ?_
  refine triple_bind (obeys_plain (plain_call rfl)) fun actual => ?_
  refine triple_bind (obeys_plain ?_) fun answer => ?_
  · cases output with
    | some ref => trivial
    | none => exact plain_call rfl
  refine triple_bind (obeys_inert rfl fun _ holding =>
    ⟨Ledger.open_of_holds holding.resources client, runnable checker holding⟩) fun accepted => ?_
  refine triple_bind (obeys_plain (Program.calls_lift _)) fun caseNo => ?_
  refine triple_bind (obeys_plain (plain_call rfl)) fun stdoutRef => ?_
  refine triple_bind (obeys_plain (plain_call rfl)) fun stderrRef => ?_
  exact triple_ret fun _ _ h => h

theorem judge_tidy (payload : Value) : Tidy (SpecialJudgeMode.judge payload) := by
  refine tidy_read fun submissionId _ => tidy_read fun problem _ => ?_
  refine tidy_read fun languageCfg _ => tidy_read fun source _ => ?_
  refine tidy_read fun spjCfg _ => tidy_read fun list _ => tidy_read fun checkerSource _ => ?_
  refine triple_ite (fun _ => tidy_ret _) fun _ => ?_
  refine tidy_plain (plain_of_prepares (buildLanguagesConfig_calls languageCfg "main"))
    fun language => tidy_read fun languageKey _ => ?_
  refine tidy_plain (plain_call rfl) fun checkerKey => ?_
  refine tidy_plain (plain_call rfl) fun _ => ?_
  refine tidy_plain (plain_call rfl) fun _ => ?_
  refine tidy_plain (plain_call rfl) fun _ => ?_
  refine triple_bind (obeys_acquire (fun client => {.client client}) rfl (fun _ => rfl) [])
    fun (client : Nat) => ?_
  refine triple_bind (obeys_acquire (fun client => {.client client}) rfl (fun _ => rfl) [])
    fun (checkerClient : Nat) => ?_
  extract_lets closeClients
  have closesClients : ∀ programs, Cleans
      ({Resource.client checkerClient} + ({.client client} + 0)) programs closeClients := by
    intro programs
    rw [add_left_comm]
    exact cleans_next (.client client) (cleans_last (.client checkerClient))
  refine triple_bind (obeys_onRaise (obeys_prepare _ (by simp)) fun _ =>
    cleans_settles (closesClients [])) fun (program : Prepared) => ?_
  extract_lets closeProgram
  have closesProgram : ∀ programs, Cleans ({Resource.program program.id} +
      ({.client checkerClient} + ({.client client} + 0))) programs closeProgram :=
    fun programs => cleans_next (.program program.id) (closesClients programs)
  generalize compileMetricsFromProcess program.compile = metrics
  obtain ⟨compileTimeMs, compileMemoryKb⟩ := metrics
  refine triple_ite (fun _ => ?_) fun compiled => ?_
  · exact triple_step (cleans_settles (closesProgram _)) (fun _ _ h => h) fun _ =>
      triple_ret fun _ _ h => h
  rw [Bool.not_eq_true', Bool.not_eq_false] at compiled
  rw [if_pos compiled]
  refine triple_bind (obeys_onRaise (R := fun (checkerProgram : Prepared) =>
    Holding ({Resource.program checkerProgram.id} + ({.program program.id} +
      ({.client checkerClient} + ({.client client} + 0)))) 0
      (if checkerProgram.compiled then checkerProgram.id :: [program.id] else [])) ?_ fun _ =>
    cleans_settles (closesProgram [program.id])) fun (checkerProgram : Prepared) => ?_
  · exact triple_bind (obeys_plain (plain_call rfl)) fun header => obeys_prepare _ (by simp)
  extract_lets closeAll
  have closesAll : ∀ programs, Cleans ({Resource.program checkerProgram.id} +
      ({.program program.id} + ({.client checkerClient} + ({.client client} + 0)))) programs
      closeAll :=
    fun programs => cleans_next (.program checkerProgram.id) (closesProgram programs)
  refine triple_ite (fun _ => ?_) fun checkerCompiled => ?_
  · exact triple_step (cleans_settles (closesAll _)) (fun _ _ h => h) fun _ =>
      triple_ret fun _ _ h => h
  rw [Bool.not_eq_true', Bool.not_eq_false] at checkerCompiled
  rw [if_pos checkerCompiled]
  refine triple_bind (R := fun _ => Settled) (triple_tryFinally ?_
    (fun _ => cleans_settles (closesAll [checkerProgram.id, program.id])) fun _ =>
      cleans_settles (closesAll [checkerProgram.id, program.id])) fun tally =>
    triple_ret fun _ _ h => h
  refine triple_bind (obeys_plain (Program.calls_lift _)) fun tests => ?_
  refine triple_bind (obeys_plain (Program.calls_lift _)) fun points => ?_
  exact triple_foldlM (fun tally tc _ => judgeCase_holds
    ⟨client, checkerClient, program, checkerProgram, checkerSource⟩ problem points tally tc
    (by simp) ⟨by simp, by simp⟩ ⟨by simp, by simp⟩) _

end SpecialJudgeMode

/-! ### The INTERACTIVE mode -/

namespace InteractiveMode

variable {res : Resources}

theorem cleans_optional (resource : Nat → Resource) (o : Option Nat) {rest : Judging α}
    (hrest : Cleans held programs rest) :
    Cleans (optional resource o + held) programs
      (whenSome (fun id => (resource id).close) o >>= fun _ => rest) := by
  cases o with
  | some id => exact cleans_next (resource id) hrest
  | none =>
      change Cleans (0 + held) programs rest
      rwa [zero_add]

theorem cleans_release (res : Resources) (programs : List Nat) :
    Cleans res.held programs (release res) := by
  have last : Cleans ({.workDir res.workDir} + 0) programs (call (.rmtree res.workDir)) :=
    cleans_last (.workDir res.workDir)
  rw [add_zero] at last
  simp only [release_eq, Resources.held, add_assoc]
  refine cleans_optional .fifo res.fdAB (cleans_optional .fifo res.fdBA ?_)
  refine cleans_optional .program res.interactorProgram (cleans_optional .program res.userProgram ?_)
  exact cleans_optional .client res.userClient (cleans_next (.client res.interactorClient) last)

/-- A step inside the guarded block: left by an exception, it leaves nothing open. -/
theorem guarded_holds {P : Trace Sandbox Exc → Prop} {R : α → Trace Sandbox Exc → Prop}
    {p : Judging α} (hp : Usable.Obeys P p (Post R fun _ => Holding res.held 0 programs)) :
    Usable.Obeys P (guarded res p) (Post R fun _ => Settled) :=
  obeys_onRaise hp fun _ => cleans_settles (cleans_release res programs)

/-- A guarded step of the case after which as much is held as before. -/
theorem guarded_plain {p : Judging α} (made : p.Calls fun op : SandboxOp => op.plain = true) :
    Usable.Obeys (Holding res.held 0 programs) (guarded res p)
      (Post (fun _ => Holding res.held 0 programs) fun _ => Settled) :=
  guarded_holds (obeys_plain made)

theorem closeFd_holds (fd : Option Nat) (kept : Multiset Resource)
    (holds : res.held = optional .fifo fd + kept) :
    Usable.Obeys (Holding res.held 0 programs) (closeFd res fd)
      (Post (fun _ => Holding kept 0 programs) fun _ => Settled) := by
  cases fd with
  | some fd =>
      have closed : Usable.Obeys (Holding res.held 0 programs) (call (.closeFd fd))
          (Post (fun _ => Holding kept 0 programs) fun _ => Holding res.held 0 programs) := by
        rw [holds]
        refine triple_post (close_holds (.fifo fd)) ?_
        rintro (e | a) past _ h
        · exact h.1
        · exact h
      exact guarded_holds closed
  | none =>
      rw [holds]
      exact triple_ret fun past _ h => by rwa [← zero_add kept]

theorem closeFifos_holds :
    Usable.Obeys (Holding res.held 0 programs) (closeFifos res)
      (Post (fun res' => Holding res'.held 0 programs) fun _ => Settled) := by
  refine triple_bind (closeFd_holds res.fdAB { res with fdAB := none : Resources }.held ?_)
    fun _ => ?_
  · simp only [Resources.held, optional]
    abel
  refine triple_bind (closeFd_holds res.fdBA
    { res with fdAB := none, fdBA := none : Resources }.held ?_) fun _ => triple_ret fun _ _ h => h
  simp only [Resources.held, optional]
  abel

theorem collectInteractor_holds (request : RunBoth) (race : Race) (t : ℚ) :
    Usable.Obeys (Holding res.held 0 programs) (collectInteractor request race res t)
      (Post (fun _ => Holding res.held 0 programs) fun _ => Settled) :=
  triple_ite (fun _ => triple_bind (guarded_plain (Program.calls_lift _)) fun _ =>
    triple_ret fun _ _ h => h) fun _ => triple_ret fun _ _ h => h

theorem firstWait_holds (request : RunBoth) (race : Race) (timeout : ℚ) :
    Usable.Obeys (Holding res.held 0 programs) (firstWait request race timeout res)
      (Post (fun res' => Holding res'.held 0 programs) fun _ => Settled) :=
  triple_bind (collectInteractor_holds _ _ _) fun _ =>
    triple_ite (fun _ => closeFifos_holds) fun _ => triple_ret fun _ _ h => h

theorem secondWait_holds (request : RunBoth) (race : Race) (tc : Value) (timeout : ℚ) :
    Usable.Obeys (Holding res.held 0 programs) (secondWait request race tc timeout res)
      (Post (fun res' => Holding res'.held 0 programs) fun _ => Settled) :=
  triple_bind (collectInteractor_holds _ _ _) fun _ =>
    triple_ite (fun _ => triple_ret fun _ _ h => h) fun _ =>
      triple_bind (guarded_plain (Program.calls_lift _)) fun _ => closeFifos_holds

/-- The two programs of a request are those of the case, and they compiled. -/
structure Prepares (res : Resources) (programs : List Nat) (request : RunBoth) : Prop where
  workDir : request.workDir = res.workDir
  user : request.userProgram = res.userProgram
  interactor : res.interactorProgram = some request.interactorProgram
  compiled : request.interactorProgram ∈ programs ∧
    ∀ program, request.userProgram = some program → program ∈ programs

theorem usable_runBoth {request : RunBoth} (prepares : Prepares res programs request)
    (holding : Holding res.held 0 programs past) : Usable past (.runBoth request) := by
  have runnable : ∀ {program}, .program program ∈ res.held → program ∈ programs →
      Runnable program past := fun mem compiled =>
    ⟨Ledger.open_of_holds holding.resources mem, holding.compiled _ compiled⟩
  refine ⟨Ledger.open_of_holds holding.resources ?_, runnable ?_ prepares.compiled.1, ?_⟩
  · simp [Resources.held, prepares.workDir]
  · simp [Resources.held, prepares.interactor, optional]
  · intro program mem
    refine runnable ?_ (prepares.compiled.2 program mem)
    simp [Resources.held, ← prepares.user, mem, optional]

theorem runPrograms_holds (problem tc : Value) {request : RunBoth}
    (prepares : Prepares res programs request) :
    Cleans res.held programs (runPrograms problem tc res request) := by
  refine triple_bind (guarded_plain (Program.calls_lift _)) fun timeout => ?_
  refine triple_bind (guarded_holds (obeys_inert rfl fun _ holding =>
    usable_runBoth prepares holding)) fun (answer : Race) => ?_
  refine triple_bind (firstWait_holds _ _ _) fun res => ?_
  refine triple_bind (secondWait_holds _ _ _ _) fun res => ?_
  refine triple_bind (guarded_plain ?_) fun stderrText => ?_
  · exact Program.calls_bind (plain_call rfl) fun found => Program.calls_ite
      (fun _ => Program.calls_bind (plain_call rfl) fun _ => trivial) fun _ => trivial
  refine triple_bind (guarded_plain (Program.calls_lift _)) fun caseNo => ?_
  exact triple_bind (cleans_release res programs) fun _ => triple_ret fun _ _ h => h

theorem settleUnrun_holds (tc : Value) (program : Prepared) (verdict : Verdict) (tally : Tally) :
    Cleans res.held programs (settleUnrun tc res program verdict tally) := by
  refine triple_bind (guarded_plain (Program.calls_lift _)) fun caseNo => ?_
  refine triple_bind (guarded_plain (Program.calls_lift _)) fun message => ?_
  exact triple_bind (cleans_release res programs) fun _ => triple_ret fun _ _ h => h

variable (setting : Setting) (tc : Value) (limits : JudgeLimits) (tally : Tally) (points : ℚ)

theorem runCase_holds (fresh : res.interactorProgram = none)
    (compiled : ∀ program, res.userProgram = some program → program ∈ programs) :
    Cleans res.held programs (runCase setting tc limits res tally points) := by
  refine triple_bind (guarded_plain (Program.calls_lift _)) fun interactorSource => ?_
  refine triple_bind (guarded_holds (obeys_prepare _ ?_)) fun (program : Prepared) => ?_
  · simp [Resources.held]
  have prepared : {Resource.program program.id} + res.held =
      { res with interactorProgram := some program.id : Resources }.held := by
    simp only [Resources.held, optional, fresh]
    abel
  rw [prepared]
  refine triple_ite (fun ready => ?_) fun _ => settleUnrun_holds tc program .IE tally
  rw [if_pos ready]
  refine triple_bind (runPrograms_holds _ _ ⟨rfl, rfl, rfl, by simp, ?_⟩) fun _ =>
    triple_ret fun _ _ h => h
  exact fun user same => List.mem_cons_of_mem _ (compiled user same)

theorem compileAndRun_holds (fresh : res.interactorProgram = none ∧ res.userProgram = none) :
    Cleans res.held programs (compileAndRun setting tc limits res tally points) := by
  have unprepared : ∀ program, res.userProgram = some program → program ∈ programs := by
    simp [fresh.2]
  rw [compileAndRun]
  split
  · next client there =>
    refine triple_ite (fun _ => ?_) fun _ => runCase_holds _ _ _ _ _ fresh.1 unprepared
    refine triple_bind (guarded_holds (obeys_prepare _ ?_)) fun (program : Prepared) => ?_
    · simp [Resources.held, there, optional]
    have prepared : {Resource.program program.id} + res.held =
        { res with userProgram := some program.id : Resources }.held := by
      simp only [Resources.held, optional, fresh.2]
      abel
    rw [prepared]
    generalize compileMetricsFromProcess program.compile = metrics
    obtain ⟨ct, cm⟩ := metrics
    refine triple_ite (fun ready => ?_) fun _ => settleUnrun_holds tc program .CE _
    rw [if_pos ready]
    refine runCase_holds _ _ _ _ _ fresh.1 ?_
    rintro user ⟨⟩
    exact List.mem_cons_self ..
  · exact runCase_holds _ _ _ _ _ fresh.1 unprepared

theorem writeInput_holds (ref : LoadedRef) (file : String) :
    Usable.Obeys (Holding held 0 programs) (writeInput ref file)
      (Post (fun _ => Holding held 0 programs) fun _ => Settled) := by
  have write : ∀ {op : SandboxOp}, op.acquires = true → (∀ r, opens ⟨op, .ok r⟩ = 0) →
      Usable.Obeys (Holding held 0 programs) (call op)
        (Post (fun _ => Holding held 0 programs) fun _ => Settled) := by
    intro op acquires opened
    have acquired : Usable.Obeys (Holding held 0 programs) (call op)
        (Post (fun _ => Holding (0 + held) 0 programs) fun _ => Settled) :=
      obeys_acquire (fun _ => 0) acquires opened programs
    rwa [zero_add] at acquired
  have inline : ∀ data, Usable.Obeys (Holding held 0 programs) (writeInput.writeData file data)
      (Post (fun _ => Holding held 0 programs) fun _ => Settled) := by
    intro data
    cases data <;> exact write rfl fun _ => rfl
  rw [writeInput]
  split
  · exact triple_ite (fun _ => write rfl fun _ => rfl) fun _ => inline _
  · exact inline _

theorem createUserClient_holds (languages : Option LanguageSpec) :
    Usable.Obeys (Holding held 0 programs) (createUserClient languages)
      (Post (fun client => Holding (optional .client client + held) 0 programs)
        fun _ => Settled) := by
  cases languages with
  | some languages =>
      rw [createUserClient, map_eq_pure_bind]
      refine triple_bind (R := fun (client : Nat) => Holding ({Resource.client client} + held) 0
        programs) (obeys_acquire _ rfl (fun _ => rfl) programs) fun client => ?_
      exact triple_ret fun _ _ h => h
  | none =>
      refine triple_ret fun past _ h => ?_
      change Holding (0 + held) 0 programs past
      rwa [zero_add]

/-- However a case is left, nothing of it stays open, or the failure is accounted for. -/
theorem judgeCase_holds : Cleans 0 [] (judgeCase setting points tally tc) := by
  refine triple_step (obeys_plain (plain_of_prepares (resolveInputRef_calls tc)))
    (fun _ _ h => h.settled) fun inputRef => ?_
  refine triple_step (obeys_plain (plain_of_prepares (caseLimits_calls 5 tc setting.problem)))
    (fun _ _ h => h.settled) fun limits => ?_
  refine triple_bind obeys_mkdtemp fun (workDir : String) => ?_
  refine triple_bind (writeInput_holds _ _) fun _ => ?_
  have mkfifo : ∀ path, Usable.Obeys (Holding {.workDir workDir} 0 []) (call (.mkfifo path))
      (Post (fun _ => Holding {.workDir workDir} 0 []) fun _ => Settled) := by
    intro path
    have acquired : Usable.Obeys (Holding {.workDir workDir} 0 []) (call (.mkfifo path))
        (Post (fun _ => Holding (0 + {.workDir workDir}) 0 []) fun _ => Settled) :=
      obeys_acquire (fun _ => 0) rfl (fun _ => rfl) []
    rwa [zero_add] at acquired
  refine triple_bind (mkfifo _) fun _ => triple_bind (mkfifo _) fun _ => ?_
  refine triple_bind (obeys_acquire (fun fd : Nat => {Resource.fifo fd}) rfl (fun _ => rfl) [])
    fun (fdAB : Nat) => ?_
  refine triple_bind (obeys_acquire (fun fd : Nat => {Resource.fifo fd}) rfl (fun _ => rfl) [])
    fun (fdBA : Nat) => ?_
  refine triple_bind (createUserClient_holds setting.languages) fun userClient => ?_
  refine triple_bind (obeys_acquire (fun client : Nat => {Resource.client client}) rfl
    (fun _ => rfl) []) fun (interactorClient : Nat) => ?_
  have acquired : {Resource.client interactorClient} +
      (optional .client userClient + ({.fifo fdBA} + ({.fifo fdAB} + {.workDir workDir}))) =
      Resources.held ⟨some fdAB, some fdBA, none, none, userClient, interactorClient, workDir⟩ := by
    simp only [Resources.held, optional]
    abel
  rw [acquired]
  exact compileAndRun_holds _ _ _ _ _ ⟨rfl, rfl⟩

theorem judge_tidy (payload : Value) : Tidy (InteractiveMode.judge payload) := by
  refine tidy_read fun submissionId _ => tidy_read fun problem _ => ?_
  refine tidy_read fun interactorCfg _ => tidy_read fun source _ => ?_
  refine tidy_read fun list _ => tidy_read fun languageCfg _ => tidy_read fun interactorSource _ => ?_
  refine triple_ite (fun _ => tidy_ret _) fun _ => ?_
  refine tidy_plain (Program.calls_ite (fun _ => ?_) fun _ => trivial) fun languages => ?_
  · exact Program.calls_bind (plain_of_prepares (buildLanguagesConfig_calls languageCfg "main"))
      fun _ => trivial
  refine tidy_read fun languageKey _ => tidy_read fun interactorLanguage _ => ?_
  refine tidy_plain (plain_of_prepares (buildLanguagesConfig_calls interactorLanguage "interactor"))
    fun interactorLanguages => tidy_read fun interactorKey _ => ?_
  refine tidy_plain (plain_call rfl) fun _ => tidy_plain (plain_call rfl) fun _ => ?_
  refine tidy_read fun tests _ => tidy_read fun points _ => ?_
  exact triple_step (triple_foldlM (fun tally tc _ => judgeCase_holds _ tc tally points) _)
    (fun _ _ h => h) fun tally => tidy_ret _

end InteractiveMode

/-! ### A request -/

theorem settled_plain {p : Judging α} (made : p.Calls fun op : SandboxOp => op.plain = true) :
    Usable.Obeys Settled p fun _ => Settled := by
  refine triple_post (obeys_calls made (fun _ _ plain _ => usable_plain plain)
    fun _ _ answer plain settled => settled.inert (inert_of_plain plain) answer) ?_
  rintro (e | a) past _ h
  · exact h
  · exact h

theorem judge_tidy (payload : Value) : Tidy (judge payload) := by
  refine tidy_read fun judgeMode _ => tidy_read fun _ _ => ?_
  refine tidy_plain (plain_call rfl) fun start => ?_
  refine triple_bind (R := fun _ => Settled) (triple_tryCatch (E := fun _ => Settled) ?_
    fun e => ?_) fun result => ?_
  · refine obeys_either (tidy_read fun mode dispatched => ?_)
    rcases modeOf_cases dispatched with rfl | rfl | rfl
    · exact StandardMode.judge_tidy payload
    · exact SpecialJudgeMode.judge_tidy payload
    · exact InteractiveMode.judge_tidy payload
  · exact obeys_either (settled_plain (Program.calls_bind (Program.calls_lift _) fun _ =>
      Program.calls_bind (plain_call rfl) fun _ => trivial))
  · exact settled_plain (Program.calls_bind (plain_call rfl) fun _ => trivial)

theorem executeJudge_tidy (pydantic : Pydantic) (payload : Value) :
    Tidy (executeJudge pydantic payload) := by
  rw [executeJudge]
  split
  · exact tidy_ret _
  · exact triple_bind (obeys_either (judge_tidy payload)) fun result =>
      settled_plain (Program.calls_lift _)

end Rules

/-- Whatever a request is and whatever the outside answers, no call is made on a client, a program,
a batch, a FIFO or a directory that is not open, nothing is closed more often than it was opened,
and only programs that compiled are run. -/
theorem handles_usable (pydantic : Pydantic) (payload : Value) (t : Trace Sandbox Exc)
    (out : Except Exc (JudgeResult ℚ)) (yields : (executeJudge pydantic payload).Yields t out) :
    ∀ t₁ e t₂, t = t₁ ++ e :: t₂ → Usable t₁ e.op :=
  (Policy.obeys_yields (executeJudge_tidy pydantic payload)
    ⟨Ledger.holds_start, Ledger.holds_start, by simp [Leaks], nofun⟩ yields).1

/-- When a request has been judged, and if the clean-up succeeded, everything that was opened is
closed if and only if no call by which more was to be acquired failed while something was held. -/
theorem handles_released_iff (pydantic : Pydantic) (payload : Value) (t : Trace Sandbox Exc)
    (out : Except Exc (JudgeResult ℚ)) (yields : (executeJudge pydantic payload).Yields t out)
    (cleanup : ∀ e ∈ t, e.op.closesHandle = true → e.raised = false) :
    (ledger.Released t ∧ batchLedger.Released t) ↔
      ∀ t₁ e t₂, t = t₁ ++ e :: t₂ → e.op.acquires = true → e.raised = true →
        ledger.Released t₁ := by
  have settled : Settled t := (Policy.obeys_yields (executeJudge_tidy pydantic payload)
    ⟨Ledger.holds_start, Ledger.holds_start, by simp [Leaks], nofun⟩ yields).2
  rw [settled cleanup]
  constructor
  · intro kept t₁ e t₂ split acquires raised
    by_contra left
    exact kept ⟨t₁, e, t₂, split, acquires, raised, left⟩
  · rintro released ⟨t₁, e, t₂, split, acquires, raised, left⟩
    exact left (released t₁ e t₂ split acquires raised)

/-- The run of a case that is answered at once. -/
def answeredRun : Trace Sandbox Exc :=
  (executeJudge plainPydantic (StandardMode.requestWorth 100 true [StandardMode.freeCase])).trace
    (StandardMode.printingWorld "1") ()

theorem handles_usable_answered : ∃ e, answeredRun[9]? = some e ∧ e.op.handsOut = true ∧
    Usable (answeredRun.take 9) e.op := by
  have handed : answeredRun[9]?.map (fun e => e.op.handsOut) = some true := by decide +kernel
  obtain ⟨e, here, hands⟩ := Option.map_eq_some_iff.mp handed
  refine ⟨e, here, hands, ?_⟩
  have split : answeredRun = answeredRun.take 9 ++ e :: answeredRun.drop 10 := by
    obtain ⟨inside, rfl⟩ := List.getElem?_eq_some_iff.mp here
    simp
  exact handles_usable plainPydantic _ answeredRun _
    (Program.yields_trace (StandardMode.printingWorld "1") _ ()) _ _ _ split

theorem handles_released_iff_answered :
    ledger.Released answeredRun ∧ batchLedger.Released answeredRun := by
  have acquired : ∀ e ∈ answeredRun, e.op.acquires = true → e.raised = false := by decide +kernel
  refine (handles_released_iff plainPydantic _ answeredRun _
    (Program.yields_trace (StandardMode.printingWorld "1") _ ()) (by decide +kernel)).mpr ?_
  intro t₁ e t₂ split acquires raised
  have here : e ∈ answeredRun := by rw [split]; simp
  rw [acquired e here acquires] at raised
  cases raised

end AcojWorker
