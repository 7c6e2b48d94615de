import AcojWorker.Effect.Trace
import AcojWorker.Judge.InteractiveWait
import Mathlib.Tactic.Abel

/-!
# The resources of an interactive case

A case makes a working directory, opens two FIFOs, creates up to two sandbox clients and
prepares up to two programs. The clean-up covers what happens once all but the programs are
there: from then on everything is closed once, whichever call fails and however the two runs
end. A call that fails between the making of the directory and that point leaves what has been
acquired behind.
-/

namespace AcojWorker

open Python Effect

inductive Resource where
  | fifo (fd : Nat)
  | client (client : Nat)
  | program (program : Nat)
  | workDir (path : String)
deriving DecidableEq

namespace SandboxOp

/-- The calls by which a case acquires what it needs, after it has its working directory and
before its programs are prepared. -/
def acquires : SandboxOp → Bool
  | copyFile .. | writeBytes .. | writeText .. | mkfifo _ | openFifo _ | createClient _ => true
  | _ => false

def cleansUp : SandboxOp → Bool
  | closeFd _ | closeProgram _ | closeClient _ | rmtree _ => true
  | _ => false

end SandboxOp

/-- What a call opens, if it succeeds. -/
def opens : Event Sandbox Exc → Multiset Resource
  | ⟨.mkdtemp, .ok path⟩ => {.workDir path}
  | ⟨.openFifo _, .ok fd⟩ => {.fifo fd}
  | ⟨.createClient _, .ok client⟩ => {.client client}
  | ⟨.prepareSource _, .ok program⟩ => {.program program.id}
  | _ => 0

def closes : Event Sandbox Exc → Multiset Resource
  | ⟨.rmtree path, .ok _⟩ => {.workDir path}
  | ⟨.closeFd fd, .ok _⟩ => {.fifo fd}
  | ⟨.closeClient client, .ok _⟩ => {.client client}
  | ⟨.closeProgram program, .ok _⟩ => {.program program}
  | _ => 0

/-- Resources are counted under the assumption that the clean-up itself succeeds. -/
abbrev ledger : Ledger Sandbox Exc Resource :=
  ⟨opens, closes, fun e => e.op.cleansUp = true → e.raised = false⟩

namespace InteractiveMode

/-! ### The guarded block -/

def optional (resource : Nat → Resource) : Option Nat → Multiset Resource
  | some id => {resource id}
  | none => 0

def Resources.held (res : Resources) : Multiset Resource :=
  optional .fifo res.fdAB + optional .fifo res.fdBA + optional .program res.interactorProgram +
    optional .program res.userProgram + optional .client res.userClient +
    {.client res.interactorClient} + {.workDir res.workDir}

variable {α : Type} {held : Multiset Resource} {res : Resources}

def whenSome (p : Nat → Judging Unit) : Option Nat → Judging Unit
  | some id => p id
  | none => pure ()

theorem release_eq (res : Resources) : release res = (do
    whenSome (fun fd => call (.closeFd fd)) res.fdAB
    whenSome (fun fd => call (.closeFd fd)) res.fdBA
    whenSome (fun program => call (.closeProgram program)) res.interactorProgram
    whenSome (fun program => call (.closeProgram program)) res.userProgram
    whenSome (fun client => call (.closeClient client)) res.userClient
    call (.closeClient res.interactorClient)
    call (.rmtree res.workDir)) := by
  rcases res with ⟨_ | _, _ | _, _ | _, _ | _, _ | _, _, _⟩ <;> rfl

theorem accounts_whenSome {p : Nat → Judging Unit} {resource : Nat → Resource}
    {lost : Multiset Resource}
    (closes : ∀ id, ledger.Accounts ({resource id} + held) (p id) (fun _ => held) lost)
    (o : Option Nat) :
    ledger.Accounts (optional resource o + held) (whenSome p o) (fun _ => held) lost := by
  cases o with
  | some id => exact closes id
  | none => exact Ledger.accounts_ret (zero_add held)

theorem accounts_release {lost : Multiset Resource} :
    ledger.Accounts res.held (release res) (fun _ => 0) lost := by
  have fd : ∀ held id, ledger.Accounts ({.fifo id} + held) (call (.closeFd id)) (fun _ => held) lost :=
    fun _ _ => Ledger.accounts_close (fun _ expected => nomatch expected rfl) fun _ => ⟨rfl, rfl⟩
  have program : ∀ held id,
      ledger.Accounts ({.program id} + held) (call (.closeProgram id)) (fun _ => held) lost :=
    fun _ _ => Ledger.accounts_close (fun _ expected => nomatch expected rfl) fun _ => ⟨rfl, rfl⟩
  have client : ∀ held id,
      ledger.Accounts ({.client id} + held) (call (.closeClient id)) (fun _ => held) lost :=
    fun _ _ => Ledger.accounts_close (fun _ expected => nomatch expected rfl) fun _ => ⟨rfl, rfl⟩
  have workDir : ledger.Accounts ({.workDir res.workDir} + 0) (call (.rmtree res.workDir))
      (fun _ => 0) lost :=
    Ledger.accounts_close (fun _ expected => nomatch expected rfl) fun _ => ⟨rfl, rfl⟩
  rw [add_zero] at workDir
  simp only [release_eq, Resources.held, add_assoc]
  refine Ledger.accounts_bind (accounts_whenSome (fd _) _) fun _ => ?_
  refine Ledger.accounts_bind (accounts_whenSome (fd _) _) fun _ => ?_
  refine Ledger.accounts_bind (accounts_whenSome (program _) _) fun _ => ?_
  refine Ledger.accounts_bind (accounts_whenSome (program _) _) fun _ => ?_
  refine Ledger.accounts_bind (accounts_whenSome (client _) _) fun _ => ?_
  exact Ledger.accounts_bind (client _ _) fun _ => workDir

/-- A step of the guarded block that is left by an exception leaves nothing behind. -/
theorem accounts_guarded {p : Judging α} {left : α → Multiset Resource}
    (hp : ledger.Accounts res.held p left res.held) :
    ledger.Accounts res.held (guarded res p) left 0 :=
  Ledger.accounts_onRaise hp accounts_release

theorem accounts_guarded_lift (r : Except Exc α) :
    ledger.Accounts res.held (guarded res (liftM r)) (fun _ => res.held) 0 :=
  accounts_guarded (Ledger.accounts_lift fun _ _ => rfl)

theorem accounts_closeFd (fd : Option Nat) (kept : Multiset Resource)
    (holds : res.held = optional .fifo fd + kept) :
    ledger.Accounts res.held (closeFd res fd) (fun _ => kept) 0 := by
  cases fd with
  | some fd =>
      refine accounts_guarded ?_
      rw [holds]
      exact Ledger.accounts_close (fun _ expected => nomatch expected rfl) fun _ => ⟨rfl, rfl⟩
  | none => exact Ledger.accounts_ret (holds.trans (zero_add kept))

theorem accounts_closeFifos :
    ledger.Accounts res.held (closeFifos res) (fun res' => res'.held) 0 := by
  refine Ledger.accounts_bind (accounts_closeFd res.fdAB
    { res with fdAB := none : Resources }.held ?_) fun _ => ?_
  · simp only [Resources.held, optional]
    abel
  refine Ledger.accounts_bind (accounts_closeFd res.fdBA
    { res with fdAB := none, fdBA := none : Resources }.held ?_) fun _ => Ledger.accounts_ret rfl
  simp only [Resources.held, optional]
  abel

/-! ### From the programs to the result -/

variable {request : RunBoth} {race : Race} {problem tc : Value}

theorem accounts_collectInteractor (t : ℚ) :
    ledger.Accounts res.held (collectInteractor request race res t) (fun _ => res.held) 0 :=
  Ledger.accounts_ite
    (fun _ => Ledger.accounts_bind (accounts_guarded_lift _) fun _ => Ledger.accounts_ret rfl)
    fun _ => Ledger.accounts_ret rfl

theorem accounts_firstWait (timeout : ℚ) :
    ledger.Accounts res.held (firstWait request race timeout res) (fun res' => res'.held) 0 :=
  Ledger.accounts_bind (accounts_collectInteractor _) fun _ =>
    Ledger.accounts_ite (fun _ => accounts_closeFifos) fun _ => Ledger.accounts_ret rfl

theorem accounts_secondWait (timeout : ℚ) :
    ledger.Accounts res.held (secondWait request race tc timeout res) (fun res' => res'.held) 0 := by
  refine Ledger.accounts_bind (accounts_collectInteractor _) fun _ => ?_
  refine Ledger.accounts_ite (fun _ => Ledger.accounts_ret rfl) fun _ => ?_
  exact Ledger.accounts_bind (accounts_guarded_lift _) fun _ => accounts_closeFifos

theorem accounts_readStderr (workDir : String) :
    ledger.Accounts held (readStderr workDir) (fun _ => held) held := by
  refine Ledger.accounts_bind (Ledger.accounts_quiet fun _ => ⟨rfl, rfl⟩) fun found => ?_
  refine Ledger.accounts_ite (fun _ => ?_) fun _ => Ledger.accounts_ret rfl
  exact Ledger.accounts_bind (Ledger.accounts_quiet fun _ => ⟨rfl, rfl⟩) fun _ =>
    Ledger.accounts_ret rfl

theorem accounts_runPrograms :
    ledger.Accounts res.held (runPrograms problem tc res request) (fun _ => 0) 0 := by
  refine Ledger.accounts_bind (accounts_guarded_lift _) fun timeout => ?_
  refine Ledger.accounts_bind (accounts_guarded (Ledger.accounts_quiet fun _ => ⟨rfl, rfl⟩))
    fun answer => ?_
  refine Ledger.accounts_bind (accounts_firstWait timeout) fun res => ?_
  refine Ledger.accounts_bind (accounts_secondWait timeout) fun res => ?_
  refine Ledger.accounts_bind (accounts_guarded (accounts_readStderr _)) fun stderrText => ?_
  refine Ledger.accounts_bind (accounts_guarded_lift _) fun caseNo => ?_
  exact Ledger.accounts_bind accounts_release fun _ => Ledger.accounts_ret rfl

theorem accounts_settleUnrun (program : Prepared) (verdict : Verdict) (tally : Tally) :
    ledger.Accounts res.held (settleUnrun tc res program verdict tally) (fun _ => 0) 0 := by
  refine Ledger.accounts_bind (accounts_guarded_lift _) fun caseNo => ?_
  refine Ledger.accounts_bind (accounts_guarded_lift _) fun message => ?_
  exact Ledger.accounts_bind accounts_release fun _ => Ledger.accounts_ret rfl

theorem accounts_prepareSource (request : PrepareSource) :
    ledger.Accounts res.held (guarded res (call (.prepareSource request)))
      (fun program => {.program program.id} + res.held) 0 :=
  accounts_guarded (Ledger.accounts_open (fun _ => ⟨rfl, rfl⟩) fun _ => ⟨rfl, rfl⟩)

variable {setting : Setting} {limits : JudgeLimits} {tally : Tally} {points : ℚ}

theorem accounts_runCase (fresh : res.interactorProgram = none) :
    ledger.Accounts res.held (runCase setting tc limits res tally points) (fun _ => 0) 0 := by
  refine Ledger.accounts_bind (accounts_guarded_lift _) fun interactorSource => ?_
  refine Ledger.accounts_bind (accounts_prepareSource _) fun program => ?_
  have prepared : {Resource.program program.id} + res.held =
      { res with interactorProgram := some program.id : Resources }.held := by
    simp only [Resources.held, optional, fresh]
    abel
  rw [prepared]
  refine Ledger.accounts_ite (fun _ => ?_) fun _ => accounts_settleUnrun _ _ _
  exact Ledger.accounts_bind accounts_runPrograms fun _ => Ledger.accounts_ret rfl

theorem accounts_compileAndRun (fresh : res.interactorProgram = none ∧ res.userProgram = none) :
    ledger.Accounts res.held (compileAndRun setting tc limits res tally points) (fun _ => 0) 0 := by
  rw [compileAndRun]
  split
  · refine Ledger.accounts_ite (fun _ => ?_) fun _ => accounts_runCase fresh.1
    refine Ledger.accounts_bind (accounts_prepareSource _) fun program => ?_
    have prepared : {Resource.program program.id} + res.held =
        { res with userProgram := some program.id : Resources }.held := by
      simp only [Resources.held, optional, fresh.2]
      abel
    rw [prepared]
    exact Ledger.accounts_ite (fun _ => accounts_runCase fresh.1) fun _ => accounts_settleUnrun _ _ _
  · exact accounts_runCase fresh.1

/-! ### After the acquisition -/

def NotAcquiring (op : SandboxOp) : Prop := op.acquires = false

theorem release_calls (res : Resources) : (release res).Calls NotAcquiring := by
  have closes : ∀ (close : Nat → Judging Unit) (o : Option Nat),
      (∀ id, (close id).Calls NotAcquiring) → (whenSome close o).Calls NotAcquiring := by
    intro close o made
    cases o with
    | some id => exact made id
    | none => trivial
  rw [release_eq]
  refine Program.calls_bind (closes _ _ fun _ => Program.calls_perform rfl) fun _ => ?_
  refine Program.calls_bind (closes _ _ fun _ => Program.calls_perform rfl) fun _ => ?_
  refine Program.calls_bind (closes _ _ fun _ => Program.calls_perform rfl) fun _ => ?_
  refine Program.calls_bind (closes _ _ fun _ => Program.calls_perform rfl) fun _ => ?_
  refine Program.calls_bind (closes _ _ fun _ => Program.calls_perform rfl) fun _ => ?_
  exact Program.calls_bind (Program.calls_perform rfl) fun _ => Program.calls_perform rfl

theorem guarded_calls {p : Judging α} (hp : p.Calls NotAcquiring) :
    (guarded res p).Calls NotAcquiring :=
  Program.calls_onRaise hp (release_calls res)

theorem guarded_lift_calls (r : Except Exc α) :
    (guarded res (liftM r)).Calls NotAcquiring :=
  guarded_calls (Program.calls_lift r)

theorem closeFifos_calls : (closeFifos res).Calls NotAcquiring := by
  have closes : ∀ (res : Resources) (fd : Option Nat), (closeFd res fd).Calls NotAcquiring := by
    intro res fd
    cases fd with
    | some fd => exact guarded_calls (Program.calls_perform rfl)
    | none => trivial
  exact Program.calls_bind (closes _ _) fun _ => Program.calls_bind (closes _ _) fun _ => trivial

theorem collectInteractor_calls (t : ℚ) :
    (collectInteractor request race res t).Calls NotAcquiring :=
  Program.calls_ite
    (fun _ => Program.calls_bind (guarded_lift_calls _) fun _ => trivial) fun _ => trivial

theorem runPrograms_calls : (runPrograms problem tc res request).Calls NotAcquiring := by
  refine Program.calls_bind (guarded_lift_calls _) fun timeout => ?_
  refine Program.calls_bind (guarded_calls (Program.calls_perform rfl)) fun answer => ?_
  refine Program.calls_bind (Program.calls_bind (collectInteractor_calls _) fun _ =>
    Program.calls_ite (fun _ => closeFifos_calls) fun _ => trivial) fun res => ?_
  refine Program.calls_bind (Program.calls_bind (collectInteractor_calls _) fun _ =>
    Program.calls_ite (fun _ => trivial) fun _ =>
      Program.calls_bind (guarded_lift_calls _) fun _ => closeFifos_calls) fun res => ?_
  refine Program.calls_bind (guarded_calls (Program.calls_bind (Program.calls_perform rfl)
    fun found => Program.calls_ite (fun _ => Program.calls_bind (Program.calls_perform rfl)
      fun _ => trivial) fun _ => trivial)) fun stderrText => ?_
  refine Program.calls_bind (guarded_lift_calls _) fun caseNo => ?_
  exact Program.calls_bind (release_calls _) fun _ => trivial

theorem settleUnrun_calls (program : Prepared) (verdict : Verdict) (tally : Tally) :
    (settleUnrun tc res program verdict tally).Calls NotAcquiring :=
  Program.calls_bind (guarded_lift_calls _) fun _ =>
    Program.calls_bind (guarded_lift_calls _) fun _ =>
      Program.calls_bind (release_calls _) fun _ => trivial

theorem runCase_calls : (runCase setting tc limits res tally points).Calls NotAcquiring := by
  refine Program.calls_bind (guarded_lift_calls _) fun interactorSource => ?_
  refine Program.calls_bind (guarded_calls (Program.calls_perform rfl)) fun program => ?_
  refine Program.calls_ite (fun _ => ?_) fun _ => settleUnrun_calls _ _ _
  exact Program.calls_bind runPrograms_calls fun _ => trivial

theorem compileAndRun_calls :
    (compileAndRun setting tc limits res tally points).Calls NotAcquiring := by
  rw [compileAndRun]
  split
  · refine Program.calls_ite (fun _ => ?_) fun _ => runCase_calls
    refine Program.calls_bind (guarded_calls (Program.calls_perform rfl)) fun program => ?_
    exact Program.calls_ite (fun _ => runCase_calls) fun _ => settleUnrun_calls _ _ _
  · exact runCase_calls

/-! ### The acquisition -/

/-- No acquiring call of the trace failed. -/
def AcquiresAll (t : Trace Sandbox Exc) : Prop :=
  ∀ e ∈ t, e.op.acquires = true → e.raised = false

instance (t : Trace Sandbox Exc) : Decidable (AcquiresAll t) :=
  inferInstanceAs (Decidable (∀ e ∈ t, _))

theorem acquiresAll_append {t₁ t₂ : Trace Sandbox Exc} :
    AcquiresAll (t₁ ++ t₂) ↔ AcquiresAll t₁ ∧ AcquiresAll t₂ :=
  List.forall_mem_append

/-- With `held` in hand and no clean-up in place yet: everything is closed in the end, or an
acquiring call fails and nothing is. -/
def Settles (held : Multiset Resource) (p : Judging α) : Prop :=
  ∀ t out, p.Yields t out → ledger.Expected t →
    (AcquiresAll t ∧ ledger.opened t + held = ledger.closed t) ∨
      (¬ AcquiresAll t ∧ ledger.closed t = 0)

theorem settles_covered {p : Judging α} (hp : ledger.Accounts held p (fun _ => 0) 0)
    (made : p.Calls NotAcquiring) : Settles held p := by
  intro t out yields expected
  refine .inl ⟨?_, ?_⟩
  · intro e he acquires
    exact nomatch (Program.yields_calls yields made e he).symm.trans acquires
  · refine (hp t out yields expected).trans ?_
    cases out <;> exact add_zero _

theorem settles_acquire {β : Type} {op : SandboxOp} (opening : op.Answer → Multiset Resource)
    {f : op.Answer → Judging β} (acquires : op.acquires = true)
    (opened : ∀ r, opens ⟨op, .ok r⟩ = opening r ∧ closes ⟨op, .ok r⟩ = 0)
    (unopened : ∀ e, closes ⟨op, .error e⟩ = 0)
    (hf : ∀ r, Settles (opening r + held) (f r)) : Settles held (call op >>= f) := by
  intro t out yields expected
  obtain ⟨e, he, rfl⟩ | ⟨r, t₁, t₂, hr, hfr, rfl⟩ := Program.yields_bind yields
  · obtain rfl := Program.yields_perform he
    have failed : ¬ AcquiresAll [⟨op, .error e⟩] := by
      intro all
      cases all _ (List.mem_singleton_self _) acquires
    have closed : ledger.closed [⟨op, .error e⟩] = 0 := by
      simpa [Ledger.closed] using unopened e
    exact .inr ⟨failed, closed⟩
  · obtain rfl := Program.yields_perform hr
    have here : AcquiresAll [⟨op, .ok r⟩] := by
      intro e he _
      rw [List.mem_singleton.mp he]
      rfl
    have opened₁ : ledger.opened [⟨op, .ok r⟩] = opening r := by
      simpa [Ledger.opened] using (opened r).1
    have closed₁ : ledger.closed [⟨op, .ok r⟩] = 0 := by
      simpa [Ledger.closed] using (opened r).2
    rw [acquiresAll_append, Ledger.opened_append, Ledger.closed_append, opened₁, closed₁, zero_add,
      add_assoc, add_left_comm]
    obtain ⟨all, balance⟩ | ⟨failed, nothing⟩ :=
      hf r t₂ out hfr (Ledger.expected_append.mp expected).2
    · exact .inl ⟨⟨here, all⟩, balance⟩
    · exact .inr ⟨fun all => failed all.2, nothing⟩

/-- An acquiring call that opens nothing. -/
theorem settles_write {β : Type} {op : SandboxOp} {f : op.Answer → Judging β}
    (acquires : op.acquires = true) (quiet : ∀ out, opens ⟨op, out⟩ = 0 ∧ closes ⟨op, out⟩ = 0)
    (hf : ∀ r, Settles held (f r)) : Settles held (call op >>= f) :=
  settles_acquire (fun _ => 0) acquires (fun r => quiet (.ok r))
    (fun e => (quiet (.error e)).2) fun r => (zero_add held).symm ▸ hf r

theorem settles_writeInput {β : Type} {f : Unit → Judging β} (inputRef : LoadedRef)
    (inputFile : String) (hf : ∀ r, Settles held (f r)) :
    Settles held (writeInput inputRef inputFile >>= f) := by
  have data : ∀ data, Settles held (writeInput.writeData inputFile data >>= f) := by
    intro data
    cases data <;> exact settles_write rfl (fun _ => ⟨rfl, rfl⟩) hf
  rw [writeInput]
  split
  · split
    · exact settles_write rfl (fun _ => ⟨rfl, rfl⟩) hf
    · exact data _
  · exact data _

theorem settles_createUserClient {β : Type} {f : Option Nat → Judging β}
    (languages : Option LanguageSpec)
    (hf : ∀ client, Settles (optional .client client + held) (f client)) :
    Settles held (createUserClient languages >>= f) := by
  cases languages with
  | some languages =>
      rw [createUserClient, map_eq_pure_bind, bind_assoc]
      exact settles_acquire (fun client => {.client client}) rfl (fun _ => ⟨rfl, rfl⟩)
        (fun _ => rfl) fun client => hf (some client)
  | none => exact (zero_add held) ▸ hf none

/-! ### One case -/

/-- Whether everything is released is decided by the acquiring calls. -/
def Decided (p : Judging α) : Prop :=
  ∀ t out, p.Yields t out → ledger.Expected t → (ledger.Released t ↔ AcquiresAll t)

theorem decided_prepared {β : Type} {p : Judging β} {f : β → Judging α}
    (prepares : p.Calls SandboxOp.PreparesRequest) (hf : ∀ b, Decided (f b)) :
    Decided (p >>= f) := by
  have untouched : ∀ t : Trace Sandbox Exc, (∀ e ∈ t, e.op.PreparesRequest) →
      AcquiresAll t ∧ ledger.opened t = 0 ∧ ledger.closed t = 0 := by
    intro t ht
    have each : ∀ e ∈ t, e.op.acquires = false ∧ opens e = 0 ∧ closes e = 0 := by
      intro e he
      have prepares := ht e he
      obtain ⟨op, answer⟩ := e
      cases op <;> first | exact ⟨rfl, rfl, rfl⟩ | exact prepares.elim
    refine ⟨?_, ?_, ?_⟩
    · intro e he acquires
      cases (each e he).1.symm.trans acquires
    · exact List.sum_eq_zero (List.forall_mem_map.mpr fun e he => (each e he).2.1)
    · exact List.sum_eq_zero (List.forall_mem_map.mpr fun e he => (each e he).2.2)
  intro t out yields expected
  obtain ⟨e, he, rfl⟩ | ⟨b, t₁, t₂, hb, hfb, rfl⟩ := Program.yields_bind yields
  · obtain ⟨all, opened, closed⟩ := untouched t (Program.yields_calls he prepares)
    exact iff_of_true (opened.trans closed.symm) all
  · obtain ⟨all, opened, closed⟩ := untouched t₁ (Program.yields_calls hb prepares)
    rw [Ledger.Released, Ledger.opened_append, Ledger.closed_append, opened, closed, zero_add,
      zero_add, acquiresAll_append]
    exact (hf b t₂ out hfb (Ledger.expected_append.mp expected).2).trans (by simp [all])

theorem decided_mkdtemp {f : String → Judging α}
    (hf : ∀ path, Settles {.workDir path} (f path)) : Decided (call .mkdtemp >>= f) := by
  intro t out yields expected
  obtain ⟨e, he, rfl⟩ | ⟨path, t₁, t₂, hpath, hfp, rfl⟩ := Program.yields_bind yields
  · obtain rfl := Program.yields_perform he
    refine iff_of_true rfl fun e he acquires => ?_
    rw [List.mem_singleton.mp he] at acquires
    cases acquires
  · obtain rfl := Program.yields_perform hpath
    have here : AcquiresAll [⟨.mkdtemp, .ok path⟩] := by
      intro e he _
      rw [List.mem_singleton.mp he]
      rfl
    rw [Ledger.Released, Ledger.opened_append, Ledger.closed_append, acquiresAll_append]
    change 0 + {Resource.workDir path} + ledger.opened t₂ = 0 + 0 + ledger.closed t₂ ↔ _
    rw [zero_add, zero_add, zero_add, add_comm]
    obtain ⟨all, balance⟩ | ⟨failed, nothing⟩ :=
      hf path t₂ out hfp (Ledger.expected_append.mp expected).2
    · exact iff_of_true balance ⟨here, all⟩
    · refine iff_of_false ?_ fun all => failed all.2
      rw [nothing]
      intro none
      simpa using congrArg Multiset.card none

/-- However an interactive case is left, and if its clean-up succeeds, everything opened for it
has been closed exactly as often as it was opened if and only if no call failed by which the case
acquires what it needs, between the making of its directory and the preparation of its programs. -/
theorem judgeCase_released_iff {t : Trace Sandbox Exc} {out : Except Exc Tally}
    (yields : (judgeCase setting points tally tc).Yields t out)
    (cleanup : ∀ e ∈ t, e.op.cleansUp = true → e.raised = false) :
    ledger.Released t ↔ ∀ e ∈ t, e.op.acquires = true → e.raised = false := by
  suffices decided : Decided (judgeCase setting points tally tc) from
    decided t out yields cleanup
  refine decided_prepared (resolveInputRef_calls tc) fun inputRef => ?_
  refine decided_prepared (caseLimits_calls 5 tc setting.problem) fun limits => ?_
  refine decided_mkdtemp fun workDir => settles_writeInput _ _ fun _ => ?_
  refine settles_write rfl (fun _ => ⟨rfl, rfl⟩) fun _ => ?_
  refine settles_write rfl (fun _ => ⟨rfl, rfl⟩) fun _ => ?_
  refine settles_acquire (fun fd => {.fifo fd}) rfl (fun _ => ⟨rfl, rfl⟩) (fun _ => rfl)
    fun fdAB => ?_
  refine settles_acquire (fun fd => {.fifo fd}) rfl (fun _ => ⟨rfl, rfl⟩) (fun _ => rfl)
    fun fdBA => ?_
  refine settles_createUserClient _ fun userClient => ?_
  refine settles_acquire (fun client => {.client client}) rfl (fun _ => ⟨rfl, rfl⟩)
    (fun _ => rfl) fun interactorClient => ?_
  have acquired : ({.client interactorClient} : Multiset Resource) +
      (optional .client userClient + ({.fifo fdBA} + ({.fifo fdAB} + {.workDir workDir}))) =
      Resources.held ⟨some fdAB, some fdBA, none, none, userClient, interactorClient, workDir⟩ := by
    simp only [Resources.held, optional]
    abel
  rw [acquired]
  exact settles_covered (accounts_compileAndRun ⟨rfl, rfl⟩) compileAndRun_calls

/-- The user's program comes too late; everything is released all the same. -/
theorem judgeCase_released_iff_late :
    ledger.Released
      ((judgeCase twoSeconds 100 (.start 0 0) onlyCase).trace (lateScript 2).world ()) :=
  (judgeCase_released_iff (Program.yields_trace ..) (by decide +kernel)).mpr (by decide +kernel)

/-- No sandbox client can be created. -/
def clientlessWorld : World Unit
  | .createClient _, s => (.error ⟨.runtimeError, "sandbox unavailable"⟩, s)
  | op, s => (lateScript 0).world op s

/-- The directory and both FIFOs stay behind. -/
theorem judgeCase_not_released :
    ¬ ∀ (setting : Setting) (points : ℚ) (tally : Tally) (tc : Value) (t : Trace Sandbox Exc)
      (out : Except Exc Tally), (judgeCase setting points tally tc).Yields t out →
      (∀ e ∈ t, e.op.cleansUp = true → e.raised = false) → ledger.Released t := by
  intro released
  have leak := released twoSeconds 100 (.start 0 0) onlyCase _ _
    (Program.yields_trace clientlessWorld _ ()) (by decide +kernel)
  exact absurd leak (by decide +kernel)

end InteractiveMode

end AcojWorker
