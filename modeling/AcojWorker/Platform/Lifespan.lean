import AcojWorker.Effect.History
import AcojWorker.Effect.Script
import AcojWorker.Platform.ModuleOrder

/-!
# The lifespan of the application

The application starts its services, runs the startup hooks of the modules in their order, serves,
runs the shutdown hooks in the reverse order, and stops the services. Every call may raise: before
the application serves, that ends it without any clean-up; afterwards it ends the clean-up.

So a hook finds the modules its own one depends on started and not yet shut down, and the services
running; and what is closed at the end depends on where the clean-up was broken off.
-/

namespace AcojWorker

open Effect Python DependencyOrder Relation ModuleDiscovery

namespace Lifespan

inductive Phase where
  | event
  | startup
  | shutdown
deriving DecidableEq, Repr

/-- The import paths that a manifest declares. -/
structure Declared where
  eventHandlers : List String
  services : List (String × String)
  startupHooks : List String
  shutdownHooks : List String
deriving Repr

def Declared.hooks (declared : Declared) : Phase → List String
  | .event => declared.eventHandlers
  | .startup => declared.startupHooks
  | .shutdown => declared.shutdownHooks

/-- What the application calls. Importing includes the check of the path, calling a hook includes
awaiting what it returns, and `serve` is what happens at the `yield`. -/
inductive Call where
  | initRedis
  | startOperationAuditQueue
  | loadAll
  | applyAllConfig
  | startConfigSyncListener
  | loadModuleConfigs
  | importString (path : String)
  | hook (phase : Phase) (owner path : String)
  | register (interface implementation : String)
  | syncPermissionRegistry
  | initHttpClient
  | emitConfigLoaded
  | serve
  | stopConfigSyncListener
  | stopOperationAuditQueue
  | closeHttpClient
  | closeRedis
  | shutdownTracing
deriving DecidableEq, Repr

abbrev calls : Signature := ⟨Call, fun _ => Unit⟩

abbrev Running (α : Type) : Type := Program calls Exc α

def call (op : Call) : Running Unit := Program.perform (S := calls) op

/-- `_run_hooks` -/
def runHooks (phase : Phase) (owner : String) (hooks : List String) : Running Unit :=
  hooks.forM fun path => do
    call (.importString path)
    call (.hook phase owner path)

section Modules

variable (declared : ModuleSpec → Declared)

def runStartupHooks (specs : List ModuleSpec) : Running Unit :=
  specs.forM fun spec => runHooks .startup spec.name (declared spec).startupHooks

def runShutdownHooks (specs : List ModuleSpec) : Running Unit :=
  specs.reverse.forM fun spec => runHooks .shutdown spec.name (declared spec).shutdownHooks

def runEventHandlers (specs : List ModuleSpec) : Running Unit :=
  specs.forM fun spec => runHooks .event spec.name (declared spec).eventHandlers

def registerServices (specs : List ModuleSpec) : Running Unit :=
  specs.forM fun spec => (declared spec).services.forM fun service => do
    call (.importString service.2)
    call (.register service.1 service.2)

def lifespan (disabled enabled : List String) (manifests : List (String × Option ModuleSpec)) :
    Running Unit := do
  let specs ← loadModuleSpecs disabled enabled manifests
  call .initRedis
  call .startOperationAuditQueue
  call .loadAll
  call .applyAllConfig
  call .startConfigSyncListener
  call .loadModuleConfigs
  runEventHandlers declared specs
  registerServices declared specs
  call .syncPermissionRegistry
  call .initHttpClient
  runStartupHooks declared specs
  call .emitConfigLoaded
  (call .serve).tryFinally do
    runShutdownHooks declared specs
    call .stopConfigSyncListener
    call .stopOperationAuditQueue
    call .closeHttpClient
    call .closeRedis
    call .shutdownTracing

/-! ### The calls in their order -/

def hookCalls (phase : Phase) (spec : ModuleSpec) : List Call :=
  ((declared spec).hooks phase).flatMap fun path => [.importString path, .hook phase spec.name path]

def serviceCalls (spec : ModuleSpec) : List Call :=
  (declared spec).services.flatMap fun service =>
    [.importString service.2, .register service.1 service.2]

/-- What comes before the hooks. -/
def setup (specs : List ModuleSpec) : List Call :=
  [.initRedis, .startOperationAuditQueue, .loadAll, .applyAllConfig, .startConfigSyncListener,
      .loadModuleConfigs] ++ specs.flatMap (hookCalls declared .event) ++
    specs.flatMap (serviceCalls declared) ++ [.syncPermissionRegistry, .initHttpClient]

def startupCalls (specs : List ModuleSpec) : List Call :=
  setup declared specs ++ specs.flatMap (hookCalls declared .startup) ++ [.emitConfigLoaded]

def closers : List Call :=
  [.stopConfigSyncListener, .stopOperationAuditQueue, .closeHttpClient, .closeRedis,
    .shutdownTracing]

def shutdownCalls (specs : List ModuleSpec) : List Call :=
  specs.reverse.flatMap (hookCalls declared .shutdown) ++ closers

/-- The calls of a list, one after the other. -/
def script (ops : List Call) : Running Unit := Program.sequence (S := calls) ops

theorem script_nil : script [] = .ret () := rfl

theorem script_cons (op : Call) (ops : List Call) :
    script (op :: ops) = call op >>= fun _ => script ops := rfl

theorem script_append (ops ops' : List Call) :
    script (ops ++ ops') = script ops >>= fun _ => script ops' :=
  Program.sequence_append (S := calls) ops ops'

theorem forM_script {γ : Type} (xs : List γ) (ops : γ → List Call) :
    (xs.forM fun x => script (ops x)) = script (xs.flatMap ops) :=
  Program.forM_sequence (S := calls) xs ops

theorem call_ret (op : Call) : (call op >>= fun _ => .ret ()) = call op :=
  Program.bind_ret (call op)

theorem script_two (op op' : Call) : script [op, op'] = call op >>= fun _ => call op' := by
  simp only [script_cons, script_nil, call_ret]

theorem runHooks_eq (phase : Phase) (owner : String) (hooks : List String) :
    runHooks phase owner hooks = script
      (hooks.flatMap fun path => [Call.importString path, Call.hook phase owner path]) := by
  rw [← forM_script]
  exact congrArg _ (funext fun path => (script_two _ _).symm)

theorem lifespan_eq (disabled enabled : List String)
    (manifests : List (String × Option ModuleSpec)) :
    lifespan declared disabled enabled manifests = (do
      let specs ← loadModuleSpecs disabled enabled manifests
      script (startupCalls declared specs)
      (call .serve).tryFinally (script (shutdownCalls declared specs))) := by
  have hooks : ∀ (phase : Phase) (xs : List ModuleSpec),
      (xs.forM fun spec => runHooks phase spec.name ((declared spec).hooks phase)) =
        script (xs.flatMap (hookCalls declared phase)) := by
    intro phase xs
    rw [← forM_script]
    exact congrArg _ (funext fun spec => runHooks_eq phase spec.name _)
  have services : ∀ xs : List ModuleSpec, registerServices declared xs =
      script (xs.flatMap (serviceCalls declared)) := by
    intro xs
    rw [← forM_script, registerServices]
    refine congrArg _ (funext fun spec => ?_)
    rw [serviceCalls, ← forM_script]
    exact congrArg _ (funext fun service => (script_two _ _).symm)
  have startup := hooks .startup
  have shutdown := hooks .shutdown
  have event := hooks .event
  simp only [Declared.hooks] at startup shutdown event
  rw [lifespan]
  refine congrArg _ (funext fun specs => ?_)
  rw [runEventHandlers, event, services, runStartupHooks, startup, runShutdownHooks, shutdown,
    startupCalls, setup, shutdownCalls]
  simp only [closers, script_append, script_cons, script_nil, call_ret,
    Program.bind_bind]

/-! ### Every run -/

abbrev Past : Type := Trace calls Exc

def Called (op : Call) (past : Past) : Prop := Trace.Called (S := calls) op past

def Returned (op : Call) (past : Past) : Prop := Trace.Returned (S := calls) op past

def opOf (e : Event calls Exc) : Call := e.op

/-- All calls of one run of the application. -/
def allCalls (specs : List ModuleSpec) : List Call :=
  startupCalls declared specs ++ .serve :: shutdownCalls declared specs

/-- A run makes the calls in their order; it goes on after `serve` however that ends, and is
broken off by any other call that raises. -/
structure Runs (ops : List Call) (t : Past) : Prop where
  part : t.map opOf <+: ops
  quiet : ∀ e ∈ t.dropLast, opOf e = .serve ∨ e.raised = false
  ends : t.map opOf = ops ∨ ∃ done last, t = done ++ [last] ∧ last.raised = true ∧ opOf last ≠ .serve

theorem serve_notMem_startupCalls (specs : List ModuleSpec) :
    .serve ∉ startupCalls declared specs := by
  simp [startupCalls, setup, hookCalls, serviceCalls]

theorem serve_notMem_shutdownCalls (specs : List ModuleSpec) :
    .serve ∉ shutdownCalls declared specs := by
  simp [shutdownCalls, closers, hookCalls]

variable {declared} in
theorem lifespan_runs {disabled enabled : List String}
    {manifests : List (String × Option ModuleSpec)} {specs : List ModuleSpec}
    (loaded : loadModuleSpecs disabled enabled manifests = .ok specs) {t : Past}
    {out : Except Exc Unit}
    (yields : (lifespan declared disabled enabled manifests).Yields t out) :
    Runs (allCalls declared specs) t := by
  rw [lifespan_eq, loaded] at yields
  have yields : (script (startupCalls declared specs) >>= fun _ =>
      (call .serve).tryFinally (script (shutdownCalls declared specs))).Yields t out := yields
  obtain ⟨e, failed, -⟩ | ⟨_, t₁, t₂, started, served, rfl⟩ := Program.yields_bind yields
  · -- The start was broken off.
    obtain ⟨-, other⟩ | ⟨⟨done, last, rfl, quiet, raised, part⟩, -⟩ :=
      Program.yields_sequence failed
    · cases other
    · refine ⟨part.trans (List.prefix_append _ _), ?_, .inr ⟨done, last, rfl, raised, ?_⟩⟩
      · rw [List.dropLast_concat]
        exact fun e he => .inr (quiet e he)
      · intro same
        refine serve_notMem_startupCalls declared specs (same ▸ part.subset ?_)
        exact List.mem_map_of_mem (List.mem_append_right _ (List.mem_singleton_self last))
  · obtain ⟨⟨same, quiet⟩, -⟩ | ⟨-, _, other⟩ := Program.yields_sequence started
    · obtain ⟨s₁, s₂, left, finished, serving, closing, rfl⟩ := Program.yields_tryFinally served
      obtain ⟨middle, own, rfl⟩ : ∃ e, opOf e = .serve ∧ s₁ = [e] :=
        ⟨_, rfl, Program.yields_perform serving⟩
      obtain ⟨⟨same', quiet'⟩, -⟩ | ⟨⟨done, last, rfl, quiet', raised, part⟩, -⟩ :=
        Program.yields_sequence closing
      · have all : (t₁ ++ ([middle] ++ s₂)).map opOf = allCalls declared specs := by
          rw [List.map_append, List.map_append, List.map_singleton, own, allCalls]
          exact congrArg₂ _ same (congrArg _ same')
        refine ⟨all ▸ List.prefix_refl _, fun e he => ?_, .inl all⟩
        obtain he | he := List.mem_append.mp (List.dropLast_subset _ he)
        · exact .inr (quiet e he)
        · obtain rfl | he := List.mem_cons.mp he
          · exact .inl own
          · exact .inr (quiet' e he)
      · have shape : t₁ ++ ([middle] ++ (done ++ [last])) =
            (t₁ ++ middle :: done) ++ [last] := by simp
        refine ⟨?_, ?_, .inr ⟨_, last, shape, raised, ?_⟩⟩
        · rw [List.map_append, List.map_append, List.map_singleton, own, allCalls,
            show t₁.map opOf = _ from same]
          exact (List.prefix_append_right_inj _).mpr (List.cons_prefix_cons.mpr ⟨rfl, part⟩)
        · rw [shape, List.dropLast_concat]
          intro e he
          obtain he | he := List.mem_append.mp he
          · exact .inr (quiet e he)
          · obtain rfl | he := List.mem_cons.mp he
            · exact .inl own
            · exact .inr (quiet' e he)
        · intro same
          refine serve_notMem_shutdownCalls declared specs (same ▸ part.subset ?_)
          exact List.mem_map_of_mem (List.mem_append_right _ (List.mem_singleton_self last))
    · cases other

/-! ### What a hook finds -/

/-- What runs while the modules do. -/
def services : List Call :=
  [.initRedis, .startOperationAuditQueue, .startConfigSyncListener, .initHttpClient]

/-- The services were started, and none of them is being stopped. -/
def ServicesUp (past : Past) : Prop :=
  (∀ op ∈ services, Returned op past) ∧ ∀ op ∈ closers, ¬ Called op past

/-- All hooks of the module returned. -/
def HooksRun (phase : Phase) (past : Past) (spec : ModuleSpec) : Prop :=
  ∀ path ∈ (declared spec).hooks phase, Returned (.hook phase spec.name path) past

/-- When a startup hook, the application itself and a shutdown hook may be called. -/
def Orderly (specs : List ModuleSpec) : Policy calls Exc
  | past, .hook .startup owner _ => ServicesUp past ∧
      ∀ spec ∈ specs, TransGen (DependsOn specs) owner spec.name →
        HooksRun declared .startup past spec
  | past, .serve => ServicesUp past ∧ ∀ spec ∈ specs, HooksRun declared .startup past spec
  | past, .hook .shutdown owner _ => ServicesUp past ∧ Called .serve past ∧
      ∀ spec ∈ specs, TransGen (DependsOn specs) spec.name owner →
        HooksRun declared .shutdown past spec
  | _, _ => True

section Order

variable {declared} {specs : List ModuleSpec} {done later : List Call} {phase : Phase}
  {owner path : String}

theorem mem_hookCalls {spec : ModuleSpec} {op : Call} :
    op ∈ hookCalls declared phase spec ↔ ∃ path ∈ (declared spec).hooks phase,
      op = .importString path ∨ op = .hook phase spec.name path := by
  simp [hookCalls]

theorem hooks_before {xs : List ModuleSpec}
    (split : xs.flatMap (hookCalls declared phase) = done ++ .hook phase owner path :: later) :
    ∃ before y after, xs = before ++ y :: after ∧ y.name = owner ∧
      ∀ spec ∈ before, ∀ path ∈ (declared spec).hooks phase,
        .hook phase spec.name path ∈ done := by
  obtain ⟨before, y, after, part, rfl, own, rfl⟩ := split_flatMap split
  refine ⟨before, y, after, rfl, ?_, fun spec mem path declares => ?_⟩
  · obtain ⟨_, -, other | same⟩ := mem_hookCalls.mp own
    · cases other
    · exact ((Call.hook.inj same).2.1).symm
  · refine List.mem_append_left _ (List.mem_flatMap.mpr ⟨spec, mem, ?_⟩)
    exact mem_hookCalls.mpr ⟨path, declares, .inr rfl⟩

theorem startupHook_at
    (split : allCalls declared specs = done ++ .hook .startup owner path :: later) :
    ∃ front rest, done = setup declared specs ++ front ∧
      specs.flatMap (hookCalls declared .startup) = front ++ .hook .startup owner path :: rest := by
  have notAfter : .hook .startup owner path ∉ .serve :: shutdownCalls declared specs := by
    simp [shutdownCalls, closers, hookCalls]
  have notBefore : .hook .startup owner path ∉ setup declared specs := by
    simp [setup, hookCalls, serviceCalls]
  obtain ⟨rest, split⟩ := split_left notAfter split
  obtain ⟨rest, split⟩ := split_left (by simp) split
  obtain ⟨front, rfl, tail⟩ := split_right notBefore split
  exact ⟨front, rest, rfl, tail⟩

theorem serve_at (split : allCalls declared specs = done ++ .serve :: later) :
    done = startupCalls declared specs := by
  obtain ⟨front, rfl, tail⟩ := split_right (serve_notMem_startupCalls declared specs) split
  cases front with
  | nil => exact List.append_nil _
  | cons op front =>
      refine absurd ?_ (serve_notMem_shutdownCalls declared specs)
      rw [(List.cons.inj tail).2]
      simp

theorem shutdownHook_at
    (split : allCalls declared specs = done ++ .hook .shutdown owner path :: later) :
    ∃ front rest, done = startupCalls declared specs ++ .serve :: front ∧
      specs.reverse.flatMap (hookCalls declared .shutdown) =
        front ++ .hook .shutdown owner path :: rest := by
  have notBefore : .hook .shutdown owner path ∉ startupCalls declared specs ++ [.serve] := by
    simp [startupCalls, setup, hookCalls, serviceCalls]
  have notAfter : .hook .shutdown owner path ∉ closers := by simp [closers]
  have grouped : (startupCalls declared specs ++ [.serve]) ++
      (specs.reverse.flatMap (hookCalls declared .shutdown) ++ closers) =
        done ++ .hook .shutdown owner path :: later := by
    rw [List.append_assoc]
    exact split
  obtain ⟨front, rfl, tail⟩ := split_right notBefore grouped
  obtain ⟨rest, tail⟩ := split_left notAfter tail
  exact ⟨front, rest, by simp, tail⟩

variable {t past rest : Past} {e : Event calls Exc} {ops : List Call}

theorem Runs.split (runs : Runs ops t) (split : t = past ++ e :: rest) :
    (∃ later, ops = past.map opOf ++ opOf e :: later) ∧
      ∀ op ∈ past.map opOf, op ≠ .serve → Returned op past := by
  subst split
  constructor
  · obtain ⟨later, rfl⟩ := runs.part
    exact ⟨rest.map opOf ++ later, by simp⟩
  · intro op mem other
    obtain ⟨x, hx, rfl⟩ := List.mem_map.mp mem
    have before : x ∈ (past ++ e :: rest).dropLast := by
      rw [List.dropLast_append_of_ne_nil (List.cons_ne_nil e rest)]
      exact List.mem_append_left _ hx
    exact ⟨x, hx, rfl, (runs.quiet x before).resolve_left other⟩

theorem called_iff {op : Call} : Called op past ↔ op ∈ past.map opOf :=
  Trace.called_iff (S := calls)

variable (declared specs) in
/-- Once the setup is done and before anything is closed the services are up. -/
theorem servicesUp_of (made : ∀ op ∈ past.map opOf, op ≠ .serve → Returned op past)
    (started : setup declared specs ⊆ past.map opOf)
    (unclosed : ∀ op ∈ past.map opOf, op ∉ closers) : ServicesUp past := by
  refine ⟨fun op mem => made op (started ?_) ?_, fun op mem called => ?_⟩
  · simp only [services, List.mem_cons, List.not_mem_nil, or_false] at mem
    rcases mem with rfl | rfl | rfl | rfl <;> simp [setup]
  · rintro rfl
    exact absurd mem (by decide)
  · exact unclosed op (called_iff.mp called) mem

theorem closers_notMem_startupCalls {op : Call} (mem : op ∈ startupCalls declared specs) :
    op ∉ closers := by
  intro closes
  simp only [closers, List.mem_cons, List.not_mem_nil, or_false] at closes
  rcases closes with rfl | rfl | rfl | rfl | rfl <;>
    simp [startupCalls, setup, hookCalls, serviceCalls] at mem

theorem closers_notMem_hookCalls {spec : ModuleSpec} {op : Call}
    (mem : op ∈ hookCalls declared phase spec) : op ∉ closers := by
  intro closes
  simp only [closers, List.mem_cons, List.not_mem_nil, or_false] at closes
  rcases closes with rfl | rfl | rfl | rfl | rfl <;> simp [hookCalls] at mem

theorem setup_subset : setup declared specs ⊆ startupCalls declared specs := by
  rw [startupCalls, List.append_assoc]
  exact List.subset_append_left _ _

theorem serve_finds (made : ∀ op ∈ past.map opOf, op ≠ .serve → Returned op past)
    (position : allCalls declared specs = past.map opOf ++ .serve :: later) :
    ServicesUp past ∧ ∀ spec ∈ specs, HooksRun declared .startup past spec := by
  have done := serve_at position
  refine ⟨servicesUp_of declared specs made ?_ ?_, fun spec mem path declares => ?_⟩
  · rw [done]
    exact setup_subset
  · rw [done]
    exact fun op mem => closers_notMem_startupCalls mem
  · refine made _ ?_ (by simp)
    rw [done, startupCalls]
    refine List.mem_append_left _ (List.mem_append_right _ (List.mem_flatMap.mpr ⟨spec, mem, ?_⟩))
    exact mem_hookCalls.mpr ⟨path, declares, .inr rfl⟩

theorem startupHook_finds (ordered : DependenciesFirst (TransGen (DependsOn specs))
      (specs.map ModuleSpec.name)) (distinct : (specs.map ModuleSpec.name).Nodup)
    (made : ∀ op ∈ past.map opOf, op ≠ .serve → Returned op past)
    (position : allCalls declared specs = past.map opOf ++ .hook .startup owner path :: later) :
    ServicesUp past ∧ ∀ spec ∈ specs, TransGen (DependsOn specs) owner spec.name →
      HooksRun declared .startup past spec := by
  obtain ⟨front, rest, done, hooks⟩ := startupHook_at position
  refine ⟨servicesUp_of declared specs made ?_ ?_, fun spec mem needs path declares => ?_⟩
  · rw [done]
    exact List.subset_append_left _ _
  · intro op mem
    rw [done] at mem
    obtain mem | mem := List.mem_append.mp mem
    · exact closers_notMem_startupCalls (setup_subset mem)
    · have among : op ∈ specs.flatMap (hookCalls declared .startup) := by
        rw [hooks]
        exact List.mem_append_left _ mem
      obtain ⟨spec, -, own⟩ := List.mem_flatMap.mp among
      exact closers_notMem_hookCalls own
  · obtain ⟨before, y, after, split, rfl, earlier⟩ := hooks_before hooks
    refine made _ ?_ (by simp)
    rw [done]
    refine List.mem_append_right _ (earlier spec ?_ path declares)
    -- The module it needs stands before it.
    have names : specs.map ModuleSpec.name =
        before.map ModuleSpec.name ++ y.name :: after.map ModuleSpec.name := by simp [split]
    obtain ⟨spec', mem', same⟩ := List.mem_map.mp (ordered _ _ _ names _ needs)
    have inside : spec' ∈ specs := split ▸ List.mem_append_left _ mem'
    exact List.inj_on_of_nodup_map distinct inside mem same ▸ mem'

theorem shutdownHook_finds (ordered : DependenciesFirst (TransGen (DependsOn specs))
      (specs.map ModuleSpec.name)) (distinct : (specs.map ModuleSpec.name).Nodup)
    (made : ∀ op ∈ past.map opOf, op ≠ .serve → Returned op past)
    (position : allCalls declared specs = past.map opOf ++ .hook .shutdown owner path :: later) :
    ServicesUp past ∧ Called .serve past ∧ ∀ spec ∈ specs,
      TransGen (DependsOn specs) spec.name owner → HooksRun declared .shutdown past spec := by
  obtain ⟨front, rest, done, hooks⟩ := shutdownHook_at position
  refine ⟨servicesUp_of declared specs made ?_ ?_, called_iff.mpr (by simp [done]),
    fun spec mem needs path declares => ?_⟩
  · rw [done]
    exact List.Subset.trans setup_subset (List.subset_append_left _ _)
  · intro op mem
    rw [done] at mem
    obtain mem | mem := List.mem_append.mp mem
    · exact closers_notMem_startupCalls mem
    · obtain rfl | mem := List.mem_cons.mp mem
      · decide
      · have among : op ∈ specs.reverse.flatMap (hookCalls declared .shutdown) := by
          rw [hooks]
          exact List.mem_append_left _ mem
        obtain ⟨spec, -, own⟩ := List.mem_flatMap.mp among
        exact closers_notMem_hookCalls own
  · obtain ⟨before, y, after, split, rfl, earlier⟩ := hooks_before hooks
    refine made _ ?_ (by simp)
    rw [done]
    refine List.mem_append_right _ (List.mem_cons_of_mem _ (earlier spec ?_ path declares))
    -- The modules that need it stand behind it, and the order is reversed.
    have split : specs = after.reverse ++ y :: before.reverse := by
      rw [← List.reverse_reverse specs, split]
      simp
    have names : specs.map ModuleSpec.name =
        after.reverse.map ModuleSpec.name ++ y.name :: before.reverse.map ModuleSpec.name := by
      rw [split]
      simp
    obtain ⟨spec', mem', same⟩ := List.mem_map.mp
      (ordered.mem_after distinct names (List.mem_map_of_mem mem) needs)
    have inside : spec' ∈ specs := by
      rw [split]
      exact List.mem_append_right _ (List.mem_cons_of_mem _ mem')
    exact List.inj_on_of_nodup_map distinct inside mem same ▸ List.mem_reverse.mp mem'

/-- In every run the hooks of a module find the modules that it depends on, and the services. -/
theorem lifespan_orderly {disabled enabled : List String}
    {manifests : List (String × Option ModuleSpec)}
    (loaded : loadModuleSpecs disabled enabled manifests = .ok specs) {out : Except Exc Unit}
    (yields : (lifespan declared disabled enabled manifests).Yields t out) :
    (Orderly declared specs).Followed t := by
  obtain ⟨distinct, ordered⟩ := loadModuleSpecs_ordered loaded
  intro past e rest split
  obtain ⟨⟨later, position⟩, made⟩ := (lifespan_runs loaded yields).split split
  have op_eq : e.op = opOf e := rfl
  rw [op_eq]
  revert position
  generalize opOf e = op
  intro position
  cases op with
  | serve => exact serve_finds made position
  | hook phase owner path =>
      cases phase with
      | event => trivial
      | startup => exact startupHook_finds ordered distinct made position
      | shutdown => exact shutdownHook_finds ordered distinct made position
  | _ => trivial

/-- The judge, which needs the storage, is found first. -/
def found : List (String × Option ModuleSpec) :=
  [("app.modules.judge.module", some ⟨"judge", true, 100, ["storage"]⟩),
    ("app.modules.storage.module", some ⟨"storage", true, 50, []⟩)]

/-- One hook for each phase. -/
def hooked (spec : ModuleSpec) : Declared where
  eventHandlers := []
  services := []
  startupHooks := [spec.name ++ ":start"]
  shutdownHooks := [spec.name ++ ":stop"]

theorem loadModuleSpecs_found : ∃ specs, loadModuleSpecs [] [] found = .ok specs := by
  have acyclic : Acyclic (found.filterMap Prod.snd) := by
    have needs : ∀ name dep, DependsOn (found.filterMap Prod.snd) name dep →
        name = "judge" ∧ dep = "storage" := by
      rintro name dep ⟨⟨spec, mem, rfl, declares⟩, -⟩
      have both : ∀ spec ∈ found.filterMap Prod.snd, ∀ dep ∈ spec.dependsOn,
          spec.name = "judge" ∧ dep = "storage" := by decide
      exact both spec mem dep declares
    intro name cycle
    obtain ⟨_, first, -⟩ := TransGen.head'_iff.mp cycle
    obtain ⟨_, -, last⟩ := TransGen.tail'_iff.mp cycle
    exact absurd ((needs _ _ first).1.symm.trans (needs _ _ last).2) (by decide)
  have distinct : ((found.filterMap Prod.snd).map ModuleSpec.name).Nodup := by decide
  have sorted := topologicalSort_through distinct
  cases ends : topologicalSort (found.filterMap Prod.snd) with
  | ok specs => exact ⟨specs, ends⟩
  | error e =>
      rw [ends] at sorted
      exact absurd acyclic sorted.2

/-- Nothing raises. -/
theorem lifespan_orderly_found : ∃ specs, loadModuleSpecs [] [] found = .ok specs ∧
    (Orderly hooked specs).Followed
      ((lifespan hooked [] [] found).trace (fun _ s => (.ok (), s)) ()) := by
  obtain ⟨specs, loaded⟩ := loadModuleSpecs_found
  exact ⟨specs, loaded, lifespan_orderly loaded (Program.yields_trace _ _ ())⟩

/-! ### What is closed in the end -/

theorem closer_at {op : Call} (closes : op ∈ closers)
    (split : allCalls declared specs = done ++ op :: later) :
    ∃ front, done = startupCalls declared specs ++
        .serve :: specs.reverse.flatMap (hookCalls declared .shutdown) ++ front ∧
      closers = front ++ op :: later := by
  have notBefore : op ∉ startupCalls declared specs ++
      .serve :: specs.reverse.flatMap (hookCalls declared .shutdown) := by
    intro mem
    obtain mem | mem := List.mem_append.mp mem
    · exact closers_notMem_startupCalls mem closes
    · obtain rfl | mem := List.mem_cons.mp mem
      · exact absurd closes (by decide)
      · obtain ⟨spec, -, own⟩ := List.mem_flatMap.mp mem
        exact closers_notMem_hookCalls own closes
  refine split_right notBefore ?_
  rw [← split, allCalls, shutdownCalls, List.append_assoc, List.cons_append]

/-- Where a closer stands among the closers. -/
theorem closers_unique {op : Call} {before after front back : List Call}
    (first : closers = before ++ op :: after) (second : closers = front ++ op :: back) :
    before = front ∧ after = back := by
  have distinct : closers.Nodup := by decide
  rw [first] at distinct
  have apart := List.nodup_append.mp distinct
  have notBefore : op ∉ before := fun mem => apart.2.2 op mem op (List.mem_cons_self ..) rfl
  have notAfter : op ∉ after := (List.nodup_cons.mp apart.2.1).1
  obtain ⟨fronts, -, backs⟩ :=
    (List.append_cons_inj_of_notMem notBefore notAfter).mp (first.symm.trans second)
  exact ⟨fronts, backs⟩

/-- A service is stopped exactly if nothing raised before its turn: neither a call of the start,
nor a shutdown hook, nor the stopping of a service before it. What happens while the application
serves does not matter. -/
theorem closed_iff {disabled enabled : List String} {manifests : List (String × Option ModuleSpec)}
    (loaded : loadModuleSpecs disabled enabled manifests = .ok specs) {out : Except Exc Unit}
    (yields : (lifespan declared disabled enabled manifests).Yields t out) {op : Call}
    {before after : List Call} (turn : closers = before ++ op :: after) :
    Called op t ↔ ∀ e ∈ t, e.raised = true → opOf e = .serve ∨ opOf e ∈ op :: after := by
  have runs := lifespan_runs loaded yields
  have closes : ∀ x ∈ op :: after, x ∈ closers := by
    intro x mem
    rw [turn]
    exact List.mem_append_right _ mem
  constructor
  · rintro ⟨e, mem, rfl⟩ x hx raised
    obtain ⟨past, rest, rfl⟩ := List.append_of_mem mem
    obtain ⟨more, part⟩ := runs.part
    have position : allCalls declared specs =
        past.map opOf ++ opOf e :: (rest.map opOf ++ more) := by
      rw [← part]
      simp
    obtain ⟨front, -, behind⟩ := closer_at (closes _ (List.mem_cons_self ..)) position
    obtain ⟨-, rfl⟩ := closers_unique turn behind
    obtain old | new := List.mem_append.mp hx
    · have quiet := runs.quiet x (by
        rw [List.dropLast_append_of_ne_nil (List.cons_ne_nil e rest)]
        exact List.mem_append_left _ old)
      exact .inl (quiet.resolve_right (by simp [raised]))
    · right
      obtain rfl | new := List.mem_cons.mp new
      · exact List.mem_cons_self ..
      · exact List.mem_cons_of_mem _ (List.mem_append_left _ (List.mem_map_of_mem new))
  · intro late
    rw [called_iff]
    obtain all | ⟨done, last, rfl, raised, other⟩ := runs.ends
    · rw [all, allCalls, shutdownCalls, turn]
      simp
    · obtain same | behind :=
        List.mem_cons.mp ((late last (by simp) raised).resolve_left other)
      · rw [← same]
        simp
      · -- The closer that raised comes after this one.
        obtain ⟨more, part⟩ := runs.part
        have position : allCalls declared specs = done.map opOf ++ opOf last :: more := by
          rw [← part]
          simp
        obtain ⟨front, made, stands⟩ :=
          closer_at (closes _ (List.mem_cons_of_mem _ behind)) position
        obtain ⟨left, right, rfl⟩ := List.append_of_mem behind
        have stands' : closers = (before ++ op :: left) ++ opOf last :: right := by
          rw [turn]
          simp
        obtain ⟨rfl, -⟩ := closers_unique stands' stands
        rw [List.map_append, made]
        simp

/-- A world in which one shutdown hook raises. -/
def stumbling : Handler calls Exc Unit := fun op s =>
  (if (op : Call) = .hook .shutdown "judge" "judge:stop" then .error ⟨.runtimeError, "busy"⟩
    else .ok (), s)

theorem closed_iff_found : ∃ specs, loadModuleSpecs [] [] found = .ok specs ∧
    (Called .closeRedis ((lifespan hooked [] [] found).trace stumbling ()) ↔
      ∀ e ∈ (lifespan hooked [] [] found).trace stumbling (), e.raised = true →
        opOf e = .serve ∨ opOf e ∈ [Call.closeRedis, .shutdownTracing]) := by
  obtain ⟨specs, loaded⟩ := loadModuleSpecs_found
  exact ⟨specs, loaded, closed_iff loaded (Program.yields_trace _ _ ())
    (show closers = [.stopConfigSyncListener, .stopOperationAuditQueue, .closeHttpClient] ++ _
      from rfl)⟩

end Order

end Modules

end Lifespan

end AcojWorker
