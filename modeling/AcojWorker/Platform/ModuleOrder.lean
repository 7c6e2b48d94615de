import AcojWorker.Data.DependencyOrder
import AcojWorker.Python.Value
import Mathlib.Data.List.Nodup
import Mathlib.Data.List.Sort
import Mathlib.Data.String.Basic

/-!
# The order of the modules

The manifests found at the start are loaded, and the modules are put into an order in which the
dependencies of a module come before it: a depth-first search from every module, in the order of
discovery, lists each one when all it depends on is listed. A dependency that is no module is
skipped, and a module that is reached while it is still open closes a circle.
-/

namespace AcojWorker

open Python DependencyOrder Relation

namespace ModuleDiscovery

/-! ### Modules -/

/-- `ModuleSpec`, as far as the loader reads it. -/
structure ModuleSpec where
  name : String
  enabled : Bool
  order : Int
  dependsOn : List String
deriving DecidableEq, Repr

def isModuleEnabled (disabled enabled : List String) (spec : ModuleSpec) : Bool :=
  if spec.name ∈ disabled then false
  else if spec.name ∈ enabled then true
  else spec.enabled

/-- The modules of the manifests; a manifest without a `ModuleSpec` has none. -/
def loadEach (disabled enabled : List String) :
    List (String × Option ModuleSpec) → List String → List ModuleSpec →
      Except Exc (List ModuleSpec)
  | [], _, specs => .ok specs
  | (manifestName, manifest) :: manifests, seen, specs =>
      match manifest with
      | none => .error ⟨.typeError, s!"{manifestName}.module must be a ModuleSpec instance"⟩
      | some spec =>
          if spec.name ∈ seen then .error ⟨.valueError, s!"Duplicate module name: {spec.name}"⟩
          else if isModuleEnabled disabled enabled spec then
            loadEach disabled enabled manifests (spec.name :: seen) (specs ++ [spec])
          else loadEach disabled enabled manifests seen specs

/-! ### The search -/

/-- The module of a name; of two modules with one name, the later one. -/
def byName (specs : List ModuleSpec) (name : String) : Option ModuleSpec :=
  specs.reverse.find? fun spec => spec.name = name

/-- The names done with, and the modules listed so far. -/
structure Progress where
  visited : List String
  result : List ModuleSpec

/-- The modules that are not open. -/
def unopened (specs : List ModuleSpec) (path : List String) : Nat :=
  (specs.filter fun spec => spec.name ∉ path).length

theorem byName_eq_some {specs : List ModuleSpec} {name : String} {spec : ModuleSpec}
    (h : byName specs name = some spec) : spec ∈ specs ∧ spec.name = name :=
  ⟨List.mem_reverse.mp (List.mem_of_find?_eq_some h), by simpa using List.find?_some h⟩

theorem unopened_lt {specs : List ModuleSpec} {path : List String} {spec : ModuleSpec}
    (mem : spec ∈ specs) (closed : spec.name ∉ path) :
    unopened specs (path ++ [spec.name]) < unopened specs path := by
  unfold unopened
  have fewer : (specs.filter fun s => s.name ∉ path ++ [spec.name]) =
      (specs.filter fun s => s.name ∉ path).filter fun s => s.name ≠ spec.name := by
    rw [List.filter_filter]
    exact List.filter_congr fun s _ => by simp [not_or, Bool.and_comm]
  rw [fewer]
  apply List.length_filter_lt_length_iff_exists.mpr
  exact ⟨spec, List.mem_filter.mpr ⟨mem, by simpa using closed⟩, by simp⟩

mutual

/-- `visit`; the open names come in the order in which they were opened. -/
def visit (specs : List ModuleSpec) (name : String) (path : List String) (progress : Progress) :
    Except Exc Progress :=
  if name ∈ progress.visited then .ok progress
  else if fresh : name ∈ path then
    .error ⟨.valueError,
      "Circular module dependency: " ++ " -> ".intercalate path ++ " -> " ++ name⟩
  else
    match found : byName specs name with
    | none => .ok { progress with visited := name :: progress.visited }
    | some spec =>
        match visitEach specs spec.dependsOn (path ++ [name]) progress with
        | .error e => .error e
        | .ok done => .ok ⟨name :: done.visited, done.result ++ [spec]⟩
termination_by (unopened specs path, 0)
decreasing_by
  obtain ⟨mem, rfl⟩ := byName_eq_some found
  exact Prod.Lex.left _ _ (unopened_lt mem fresh)

def visitEach (specs : List ModuleSpec) (deps : List String) (path : List String)
    (progress : Progress) : Except Exc Progress :=
  match deps with
  | [] => .ok progress
  | dep :: deps =>
      match visit specs dep path progress with
      | .error e => .error e
      | .ok progress => visitEach specs deps path progress
termination_by (unopened specs path, deps.length + 1)

end

section

variable {specs : List ModuleSpec} {name : String} {path : List String} {progress : Progress}

theorem visit_unknown (unseen : name ∉ progress.visited) (unopened : name ∉ path)
    (found : byName specs name = none) :
    visit specs name path progress =
      .ok { progress with visited := name :: progress.visited } := by
  rw [visit, if_neg unseen, dif_neg unopened]
  split
  · rfl
  · next _ other => exact nomatch found.symm.trans other

theorem visit_module {spec : ModuleSpec} (unseen : name ∉ progress.visited)
    (unopened : name ∉ path) (found : byName specs name = some spec) :
    visit specs name path progress =
      match visitEach specs spec.dependsOn (path ++ [name]) progress with
      | .error e => .error e
      | .ok done => .ok ⟨name :: done.visited, done.result ++ [spec]⟩ := by
  rw [visit, if_neg unseen, dif_neg unopened]
  split
  · next other => exact nomatch found.symm.trans other
  · next _ other =>
    cases found.symm.trans other
    rfl

end

/-- One round of the search: a module that is visited already is left out. -/
def visitNew (specs : List ModuleSpec) (progress : Progress) (spec : ModuleSpec) :
    Except Exc Progress :=
  if spec.name ∈ progress.visited then .ok progress else visit specs spec.name [] progress

/-- The key of the last pass, `(order, name)`. -/
def Precedes (s₁ s₂ : ModuleSpec) : Prop :=
  s₁.order < s₂.order ∨ s₁.order = s₂.order ∧ s₁.name ≤ s₂.name

instance (s₁ s₂ : ModuleSpec) : Decidable (Precedes s₁ s₂) :=
  inferInstanceAs (Decidable (_ ∨ _ ∧ _))

/-- `_topological_sort`. -/
def topologicalSort (specs : List ModuleSpec) : Except Exc (List ModuleSpec) :=
  match specs.foldlM (visitNew specs) ⟨[], []⟩ with
  | .error e => .error e
  | .ok progress =>
      let remaining := specs.filter fun spec => spec.name ∉ progress.result.map ModuleSpec.name
      .ok (progress.result ++ remaining.mergeSort fun s₁ s₂ => Precedes s₁ s₂)

/-- `_load_module_specs_cached`, of the manifests found. -/
def loadModuleSpecs (disabled enabled : List String)
    (manifests : List (String × Option ModuleSpec)) : Except Exc (List ModuleSpec) :=
  match loadEach disabled enabled manifests [] [] with
  | .error e => .error e
  | .ok specs => topologicalSort specs

/-! ### Dependencies -/

section

variable (specs : List ModuleSpec)

/-- The module `name` declares the module `dep`; both are in the list. -/
def DependsOn (name dep : String) : Prop :=
  (∃ spec ∈ specs, spec.name = name ∧ dep ∈ spec.dependsOn) ∧ dep ∈ specs.map ModuleSpec.name

/-- No module needs itself. -/
def Acyclic : Prop := ∀ name, ¬ TransGen (DependsOn specs) name name

/-- What holds of the search between two visits. -/
structure Sound (progress : Progress) : Prop where
  listed : ∀ spec ∈ progress.result, spec ∈ specs
  visited : ∀ spec ∈ specs, spec.name ∈ progress.visited ↔ spec ∈ progress.result
  nodup : progress.result.Nodup
  ordered : DependenciesFirst (DependsOn specs) (progress.result.map ModuleSpec.name)

/-- What a visit does beside the modules it lists: the open ones stay open. -/
structure Extends (path : List String) (before after : Progress) : Prop where
  sound : Sound specs after
  visited : ∀ name ∈ before.visited, name ∈ after.visited
  fresh : ∀ name ∈ path, name ∉ after.visited

/-- Every open module needs every target that is a module. -/
def Reaches (path : List String) (targets : List String) : Prop :=
  ∀ opened ∈ path, opened ∈ specs.map ModuleSpec.name ∧
    ∀ name ∈ targets, name ∈ specs.map ModuleSpec.name → TransGen (DependsOn specs) opened name

/-- A module that declares no dependency, and is none of another. -/
def Independent (spec : ModuleSpec) : Prop :=
  spec.dependsOn = [] ∧ ∀ other ∈ specs, spec.name ∉ other.dependsOn

instance (spec : ModuleSpec) : Decidable (Independent specs spec) :=
  inferInstanceAs (Decidable (_ ∧ _))

/-- Beside its targets, a visit lists dependencies. -/
def Appends (targets : List String) (before after : Progress) : Prop :=
  ∃ new, after.result = before.result ++ new ∧
    ∀ spec ∈ new, spec.name ∈ targets ∨ ∃ other ∈ specs, spec.name ∈ other.dependsOn

/-- The targets are visited, or there is a circle. -/
def Visits (path targets : List String) (progress : Progress) (outcome : Except Exc Progress) :
    Prop :=
  Sound specs progress → (∀ opened ∈ path, opened ∉ progress.visited) →
    match outcome with
    | .ok done => Extends specs path progress done ∧ Appends specs targets progress done ∧
        ∀ name ∈ targets, name ∈ done.visited
    | .error e => e.kind = .valueError ∧ (Reaches specs path targets → ¬ Acyclic specs)

end

section Search

variable {specs : List ModuleSpec}

theorem byName_name (distinct : (specs.map ModuleSpec.name).Nodup) {spec : ModuleSpec}
    (mem : spec ∈ specs) :
    byName specs spec.name = some spec := by
  obtain ⟨found, hf⟩ : ∃ found, byName specs spec.name = some found := by
    apply Option.isSome_iff_exists.mp
    apply List.find?_isSome.mpr
    exact ⟨spec, List.mem_reverse.mpr mem, by simp⟩
  obtain ⟨mem', same⟩ := byName_eq_some hf
  rw [hf, List.inj_on_of_nodup_map distinct mem' mem same]

theorem byName_eq_none {name : String} (h : byName specs name = none) :
    name ∉ specs.map ModuleSpec.name := by
  intro mem
  obtain ⟨spec, listed, rfl⟩ := List.mem_map.mp mem
  have other := List.find?_eq_none.mp h spec (List.mem_reverse.mpr listed)
  exact other (by simp)

/-- A module is listed when it is closed. -/
theorem Sound.close {progress : Progress} (sound : Sound specs progress)
    (distinct : (specs.map ModuleSpec.name).Nodup) {spec : ModuleSpec} (mem : spec ∈ specs)
    (fresh : spec.name ∉ progress.visited) (before : ∀ dep ∈ spec.dependsOn, dep ∈ progress.visited) :
    Sound specs ⟨spec.name :: progress.visited, progress.result ++ [spec]⟩ where
  listed := by
    intro s hs
    obtain hs | hs := List.mem_append.mp hs
    · exact sound.listed s hs
    · exact List.mem_singleton.mp hs ▸ mem
  visited := by
    intro s hs
    have same : s.name = spec.name ↔ s = spec :=
      ⟨List.inj_on_of_nodup_map distinct hs mem, congrArg _⟩
    change s.name ∈ spec.name :: progress.visited ↔ s ∈ progress.result ++ [spec]
    rw [List.mem_cons, List.mem_append, List.mem_singleton, same, sound.visited s hs, or_comm]
  nodup := by
    have unlisted : spec ∉ progress.result := fun h => fresh ((sound.visited spec mem).mpr h)
    simpa only [List.concat_eq_append] using sound.nodup.concat unlisted
  ordered := by
    rw [List.map_append]
    apply sound.ordered.concat
    rintro dep ⟨⟨s, hs, same, declared⟩, present⟩
    obtain rfl := List.inj_on_of_nodup_map distinct hs mem same
    obtain ⟨d, hd, rfl⟩ := List.mem_map.mp present
    exact List.mem_map_of_mem ((sound.visited d hd).mp (before _ declared))

/-- A name that is no module is only noted. -/
theorem Sound.skip {progress : Progress} (sound : Sound specs progress) {name : String}
    (unknown : name ∉ specs.map ModuleSpec.name) :
    Sound specs { progress with visited := name :: progress.visited } where
  listed := sound.listed
  visited := by
    intro s hs
    have other : s.name ≠ name := fun same => unknown (same ▸ List.mem_map_of_mem hs)
    simp only [List.mem_cons, other, false_or, sound.visited s hs]
  nodup := sound.nodup
  ordered := sound.ordered

theorem Extends.refl {path : List String} {progress : Progress} (sound : Sound specs progress)
    (fresh : ∀ name ∈ path, name ∉ progress.visited) : Extends specs path progress progress :=
  ⟨sound, fun _ => id, fresh⟩

theorem Extends.trans {path : List String} {p₁ p₂ p₃ : Progress}
    (first : Extends specs path p₁ p₂) (second : Extends specs path p₂ p₃) :
    Extends specs path p₁ p₃ :=
  ⟨second.sound, fun name mem => second.visited name (first.visited name mem), second.fresh⟩

theorem Appends.refl {targets : List String} {progress : Progress} :
    Appends specs targets progress progress :=
  ⟨[], (List.append_nil _).symm, fun _ mem => nomatch mem⟩

theorem Appends.close {before after : Progress} {spec : ModuleSpec}
    (appends : Appends specs spec.dependsOn before after) (mem : spec ∈ specs) :
    Appends specs [spec.name] before
      ⟨spec.name :: after.visited, after.result ++ [spec]⟩ := by
  obtain ⟨new, same, known⟩ := appends
  refine ⟨new ++ [spec], ?_, fun s hs => ?_⟩
  · rw [same, List.append_assoc]
  · obtain hs | hs := List.mem_append.mp hs
    · obtain declared | other := known s hs
      · exact .inr ⟨spec, mem, declared⟩
      · exact .inr other
    · exact .inl (List.mem_singleton.mp hs ▸ List.mem_singleton_self _)

theorem Appends.cons {dep : String} {deps : List String} {p₁ p₂ p₃ : Progress}
    (first : Appends specs [dep] p₁ p₂) (rest : Appends specs deps p₂ p₃) :
    Appends specs (dep :: deps) p₁ p₃ := by
  obtain ⟨new₁, same₁, known₁⟩ := first
  obtain ⟨new₂, same₂, known₂⟩ := rest
  refine ⟨new₁ ++ new₂, ?_, fun s hs => ?_⟩
  · rw [same₂, same₁, List.append_assoc]
  · obtain hs | hs := List.mem_append.mp hs
    · exact (known₁ s hs).imp_left fun h => List.mem_cons.mpr (.inl (List.mem_singleton.mp h))
    · exact (known₂ s hs).imp_left (List.mem_cons_of_mem _)

theorem fresh_concat {path : List String} {progress : Progress} {name : String}
    (fresh : ∀ opened ∈ path, opened ∉ progress.visited) (unseen : name ∉ progress.visited) :
    ∀ opened ∈ path ++ [name], opened ∉ progress.visited := by
  intro opened mem
  obtain mem | mem := List.mem_append.mp mem
  · exact fresh opened mem
  · exact List.mem_singleton.mp mem ▸ unseen

theorem Reaches.mono {path targets targets' : List String} (reaches : Reaches specs path targets)
    (fewer : ∀ name ∈ targets', name ∈ targets) : Reaches specs path targets' :=
  fun opened mem => ⟨(reaches opened mem).1, fun name mem' =>
    (reaches opened mem).2 name (fewer name mem')⟩

/-- A module that is opened needs what it declares. -/
theorem Reaches.push {path : List String} {spec : ModuleSpec}
    (reaches : Reaches specs path [spec.name]) (mem : spec ∈ specs) :
    Reaches specs (path ++ [spec.name]) spec.dependsOn := by
  have listed : spec.name ∈ specs.map ModuleSpec.name := List.mem_map_of_mem mem
  have declares : ∀ dep ∈ spec.dependsOn, dep ∈ specs.map ModuleSpec.name →
      DependsOn specs spec.name dep := fun dep declared present =>
    ⟨⟨spec, mem, rfl, declared⟩, present⟩
  intro opened mem'
  obtain mem' | mem' := List.mem_append.mp mem'
  · obtain ⟨there, needs⟩ := reaches opened mem'
    refine ⟨there, fun dep declared present => ?_⟩
    exact (needs spec.name (List.mem_singleton_self _) listed).tail (declares dep declared present)
  · obtain rfl := List.mem_singleton.mp mem'
    exact ⟨listed, fun dep declared present => .single (declares dep declared present)⟩

/-- A visit lists its target, after all that is needed for it, or finds a circle. -/
theorem visit_visits (distinct : (specs.map ModuleSpec.name).Nodup) (name : String)
    (path : List String) (progress : Progress) :
    Visits specs path [name] progress (visit specs name path progress) := by
  apply visit.induct specs
    (fun name path progress => Visits specs path [name] progress (visit specs name path progress))
    (fun deps path progress => Visits specs path deps progress (visitEach specs deps path progress))
  case case1 =>
    intro name path progress seen sound fresh
    rw [visit, if_pos seen]
    exact ⟨.refl sound fresh, .refl, fun _ mem => List.mem_singleton.mp mem ▸ seen⟩
  case case2 =>
    intro name path progress unseen opened sound fresh
    rw [visit, if_neg unseen, dif_pos opened]
    refine ⟨rfl, fun reaches acyclic => ?_⟩
    obtain ⟨listed, needs⟩ := reaches name opened
    exact acyclic name (needs name (List.mem_singleton_self name) listed)
  case case3 =>
    intro name path progress unseen unopened found sound fresh
    rw [visit_unknown unseen unopened found]
    refine ⟨⟨sound.skip (byName_eq_none found), fun _ => List.mem_cons_of_mem _, ?_⟩, .refl, ?_⟩
    · intro opened mem visited
      obtain rfl | visited := List.mem_cons.mp visited
      · exact unopened mem
      · exact fresh opened mem visited
    · intro _ mem
      exact List.mem_singleton.mp mem ▸ List.mem_cons_self ..
  case case4 =>
    intro name path progress unseen unopened spec found e raised ih sound fresh
    rw [raised] at ih
    obtain ⟨mem, rfl⟩ := byName_eq_some found
    obtain ⟨kind, cyclic⟩ := ih sound (fresh_concat fresh unseen)
    rw [visit_module unseen unopened found, raised]
    exact ⟨kind, fun reaches => cyclic (reaches.push mem)⟩
  case case5 =>
    intro name path progress unseen unopened spec found done ends ih sound fresh
    rw [ends] at ih
    obtain ⟨mem, rfl⟩ := byName_eq_some found
    obtain ⟨further, appends, visited⟩ := ih sound (fresh_concat fresh unseen)
    rw [visit_module unseen unopened found, ends]
    refine ⟨⟨further.sound.close distinct mem ?_ visited, ?_, ?_⟩, appends.close mem, ?_⟩
    · exact further.fresh spec.name (List.mem_append_right _ (List.mem_singleton_self _))
    · exact fun n before => List.mem_cons_of_mem _ (further.visited n before)
    · intro opened mem' visited'
      obtain rfl | visited' := List.mem_cons.mp visited'
      · exact unopened mem'
      · exact further.fresh opened (List.mem_append_left _ mem') visited'
    · intro _ mem'
      exact List.mem_singleton.mp mem' ▸ List.mem_cons_self ..
  case case6 =>
    intro path progress sound fresh
    rw [visitEach]
    exact ⟨.refl sound fresh, .refl, fun _ mem => nomatch mem⟩
  case case7 =>
    intro path progress dep deps e raised ih sound fresh
    rw [visitEach, raised]
    rw [raised] at ih
    obtain ⟨kind, cyclic⟩ := ih sound fresh
    exact ⟨kind, fun reaches => cyclic (reaches.mono fun _ mem =>
      List.mem_singleton.mp mem ▸ List.mem_cons_self ..)⟩
  case case8 =>
    intro path progress dep deps done ends first rest sound fresh
    rw [ends] at first
    obtain ⟨begun, appends, visited⟩ := first sound fresh
    have rest := rest begun.sound begun.fresh
    rw [visitEach, ends]
    split at rest
    · next done' ends' =>
      obtain ⟨further, appends', others⟩ := rest
      simp only [ends']
      refine ⟨begun.trans further, appends.cons appends', fun n mem => ?_⟩
      obtain rfl | mem := List.mem_cons.mp mem
      · exact further.visited n (visited n (List.mem_singleton_self n))
      · exact others n mem
    · next e raised =>
      obtain ⟨kind, cyclic⟩ := rest
      simp only [raised]
      exact ⟨kind, fun reaches => cyclic (reaches.mono fun _ => List.mem_cons_of_mem _)⟩

/-! ### The whole list -/

/-- What holds when the modules up to a place have been looked at. -/
structure Through (specs before : List ModuleSpec) (progress : Progress) : Prop where
  sound : Sound specs progress
  visited : ∀ spec ∈ before, spec.name ∈ progress.visited
  independent : progress.result.filter (Independent specs) = before.filter (Independent specs)

theorem through_start : Through specs [] ⟨[], []⟩ where
  sound := {
    listed := fun _ mem => nomatch mem
    visited := fun _ _ => iff_of_false List.not_mem_nil List.not_mem_nil
    nodup := .nil
    ordered := dependenciesFirst_nil }
  visited := fun _ mem => nomatch mem
  independent := rfl

/-- Only in its own round an independent module is listed. -/
theorem filter_visit (distinct : (specs.map ModuleSpec.name).Nodup) {spec : ModuleSpec}
    {progress done : Progress} (mem : spec ∈ specs) (unseen : spec.name ∉ progress.visited)
    (sound : Sound specs done) (appends : Appends specs [spec.name] progress done)
    (ends : visit specs spec.name [] progress = .ok done) :
    done.result.filter (Independent specs) =
      progress.result.filter (Independent specs) ++ [spec].filter (Independent specs) := by
  by_cases independent : Independent specs spec
  · rw [visit_module unseen List.not_mem_nil (byName_name distinct mem), independent.1,
      visitEach] at ends
    cases ends
    rw [List.filter_append]
  · obtain ⟨new, same, known⟩ := appends
    rw [same, List.filter_append]
    congr 1
    have alone : [spec].filter (Independent specs) = [] := by simp [independent]
    rw [alone, List.filter_eq_nil_iff]
    intro s hs chosen
    have chosen : Independent specs s := by simpa using chosen
    obtain named | ⟨other, listed, declared⟩ := known s hs
    · have hs : s ∈ specs := sound.listed s (same ▸ List.mem_append_right _ hs)
      exact independent (List.inj_on_of_nodup_map distinct hs mem
        (List.mem_singleton.mp named) ▸ chosen)
    · exact chosen.2 other listed declared

theorem visitNew_through (distinct : (specs.map ModuleSpec.name).Nodup)
    {before rest : List ModuleSpec} {spec : ModuleSpec} {progress : Progress}
    (split : specs = before ++ spec :: rest) (through : Through specs before progress) :
    match visitNew specs progress spec with
    | .ok done => Through specs (before ++ [spec]) done
    | .error e => e.kind = .valueError ∧ ¬ Acyclic specs := by
  have mem : spec ∈ specs := split ▸ List.mem_append_right _ (List.mem_cons_self ..)
  have all_visited : ∀ done : Progress, (∀ n ∈ progress.visited, n ∈ done.visited) →
      spec.name ∈ done.visited → ∀ s ∈ before ++ [spec], s.name ∈ done.visited := by
    intro done kept visited s hs
    obtain hs | hs := List.mem_append.mp hs
    · exact kept _ (through.visited s hs)
    · exact List.mem_singleton.mp hs ▸ visited
  rw [visitNew]
  by_cases seen : spec.name ∈ progress.visited
  · rw [if_pos seen]
    refine ⟨through.sound, all_visited progress (fun _ => id) seen, ?_⟩
    rw [List.filter_append, through.independent]
    have dependent : ¬ Independent specs spec := by
      intro independent
      have listed : spec ∈ progress.result.filter (Independent specs) :=
        List.mem_filter.mpr ⟨(through.sound.visited spec mem).mp seen, by simpa⟩
      rw [through.independent] at listed
      have nodup : (before ++ spec :: rest).Nodup := split ▸ distinct.of_map
      exact (List.nodup_append.mp nodup).2.2 spec (List.mem_filter.mp listed).1 spec
        (List.mem_cons_self ..) rfl
    simp [dependent]
  · rw [if_neg seen]
    have visits := visit_visits distinct spec.name [] progress through.sound
      (fun _ h => nomatch h)
    cases ends : visit specs spec.name [] progress with
    | error e =>
        rw [ends] at visits
        exact ⟨visits.1, visits.2 fun _ h => nomatch h⟩
    | ok done =>
        rw [ends] at visits
        obtain ⟨further, appends, visited⟩ := visits
        refine ⟨further.sound,
          all_visited done further.visited (visited _ (List.mem_singleton_self _)), ?_⟩
        rw [filter_visit distinct mem seen further.sound appends ends, List.filter_append,
          through.independent]

theorem foldlM_through (distinct : (specs.map ModuleSpec.name).Nodup)
    {before rest : List ModuleSpec} {progress : Progress} (split : specs = before ++ rest)
    (through : Through specs before progress) :
    match rest.foldlM (visitNew specs) progress with
    | .ok done => Through specs specs done
    | .error e => e.kind = .valueError ∧ ¬ Acyclic specs := by
  induction rest generalizing before progress with
  | nil =>
      rw [List.append_nil] at split
      exact split ▸ through
  | cons spec rest ih =>
      have step := visitNew_through distinct split through
      rw [List.foldlM_cons]
      cases ends : visitNew specs progress spec with
      | error e =>
          rw [ends] at step
          exact step
      | ok done =>
          rw [ends] at step
          exact ih (by rw [split, List.append_assoc, List.singleton_append]) step

theorem Through.all_listed {progress : Progress} (through : Through specs specs progress)
    {spec : ModuleSpec} (mem : spec ∈ specs) : spec ∈ progress.result :=
  (through.sound.visited spec mem).mp (through.visited spec mem)

theorem Through.perm {progress : Progress} (through : Through specs specs progress)
    (distinct : (specs.map ModuleSpec.name).Nodup) : progress.result.Perm specs :=
  (List.perm_ext_iff_of_nodup through.sound.nodup distinct.of_map).mpr fun spec =>
    ⟨through.sound.listed spec, through.all_listed⟩

/-- The last pass finds no module: the search has listed all of them. -/
theorem topologicalSort_through (distinct : (specs.map ModuleSpec.name).Nodup) :
    match topologicalSort specs with
    | .ok result => ∃ progress, Through specs specs progress ∧ result = progress.result
    | .error e => e.kind = .valueError ∧ ¬ Acyclic specs := by
  have run := foldlM_through distinct (List.nil_append specs).symm through_start
  rw [topologicalSort]
  cases ends : specs.foldlM (visitNew specs) ⟨[], []⟩ with
  | error e =>
      rw [ends] at run
      exact run
  | ok progress =>
      rw [ends] at run
      refine ⟨progress, run, ?_⟩
      have none_left : (specs.filter fun s => s.name ∉ progress.result.map ModuleSpec.name) = [] := by
        apply List.filter_eq_nil_iff.mpr
        intro s hs absent
        exact absurd (List.mem_map_of_mem (run.all_listed hs)) (by simpa using absent)
      simp only [none_left, List.mergeSort_nil, List.append_nil]

end Search

/-! ### The order of the result -/

/-- What is loaded has distinct names, so that it can be sorted. -/
theorem loadEach_distinct {disabled enabled : List String}
    {manifests : List (String × Option ModuleSpec)} {seen : List String}
    {specs loaded : List ModuleSpec} (distinct : (specs.map ModuleSpec.name).Nodup)
    (known : ∀ spec ∈ specs, spec.name ∈ seen)
    (h : loadEach disabled enabled manifests seen specs = .ok loaded) :
    (loaded.map ModuleSpec.name).Nodup := by
  induction manifests generalizing seen specs with
  | nil =>
      cases h
      exact distinct
  | cons manifest manifests ih =>
      obtain ⟨manifestName, manifest⟩ := manifest
      cases manifest with
      | none => exact nomatch h
      | some spec =>
          simp only [loadEach] at h
          split at h
          · exact nomatch h
          · next new =>
            split at h
            · apply ih _ _ h
              · have unlisted : spec.name ∉ specs.map ModuleSpec.name := by
                  intro mem
                  obtain ⟨s, hs, same⟩ := List.mem_map.mp mem
                  exact new (same ▸ known s hs)
                rw [List.map_append, List.map_singleton, ← List.concat_eq_append]
                exact distinct.concat unlisted
              · intro s hs
                obtain hs | hs := List.mem_append.mp hs
                · exact List.mem_cons_of_mem _ (known s hs)
                · exact List.mem_singleton.mp hs ▸ List.mem_cons_self ..
            · exact ih distinct known h

/-- Whatever the manifests are, the loaded modules come after everything they need. -/
theorem loadModuleSpecs_ordered {disabled enabled : List String}
    {manifests : List (String × Option ModuleSpec)} {result : List ModuleSpec}
    (h : loadModuleSpecs disabled enabled manifests = .ok result) :
    (result.map ModuleSpec.name).Nodup ∧
      DependenciesFirst (TransGen (DependsOn result)) (result.map ModuleSpec.name) := by
  rw [loadModuleSpecs] at h
  split at h
  · exact nomatch h
  · next specs loaded =>
    have distinct : (specs.map ModuleSpec.name).Nodup := by
      apply loadEach_distinct _ _ loaded
      · exact List.nodup_nil
      · exact fun _ mem => nomatch mem
    have sorted := topologicalSort_through distinct
    rw [h] at sorted
    obtain ⟨progress, through, rfl⟩ := sorted
    have perm := through.perm distinct
    have same : DependsOn progress.result = DependsOn specs := by
      funext name dep
      simp only [DependsOn, perm.mem_iff, (perm.map ModuleSpec.name).mem_iff]
    rw [same]
    exact ⟨(perm.map ModuleSpec.name).nodup_iff.mpr distinct, through.sound.ordered.transGen⟩

/-- Without circular dependencies the modules are put behind everything they need; a circle is an
error, and the only one. -/
theorem topologicalSort_correct {specs : List ModuleSpec}
    (distinct : (specs.map ModuleSpec.name).Nodup) :
    (Acyclic specs → ∃ result, topologicalSort specs = .ok result ∧ result.Perm specs ∧
      DependenciesFirst (TransGen (DependsOn specs)) (result.map ModuleSpec.name)) ∧
    (¬ Acyclic specs → ∃ message, topologicalSort specs = .error ⟨.valueError, message⟩) := by
  have sorted := topologicalSort_through distinct
  cases ends : topologicalSort specs with
  | error e =>
      rw [ends] at sorted
      obtain ⟨kind, cyclic⟩ := sorted
      refine ⟨fun acyclic => absurd acyclic cyclic, fun _ => ⟨e.message, ?_⟩⟩
      rw [← kind]
  | ok result =>
      rw [ends] at sorted
      obtain ⟨progress, through, rfl⟩ := sorted
      have acyclic : Acyclic specs := by
        intro name cycle
        have listed : name ∈ specs.map ModuleSpec.name := by
          cases cycle with
          | single needs => exact needs.2
          | tail _ needs => exact needs.2
        obtain ⟨s, hs, rfl⟩ := List.mem_map.mp listed
        exact through.sound.ordered.not_cyclic (List.mem_map_of_mem (through.all_listed hs)) cycle
      exact ⟨fun _ => ⟨progress.result, rfl, through.perm distinct,
        through.sound.ordered.transGen⟩, fun cyclic => absurd acyclic cyclic⟩

/-- A module, one it needs, and a dependency that is not there. -/
def chained : List ModuleSpec :=
  [⟨"judge", true, 100, ["storage", "missing"]⟩, ⟨"storage", true, 50, []⟩]

theorem topologicalSort_chained : (Acyclic chained → ∃ result,
      topologicalSort chained = .ok result ∧ result.Perm chained ∧
        DependenciesFirst (TransGen (DependsOn chained)) (result.map ModuleSpec.name)) ∧
    (¬ Acyclic chained → ∃ message, topologicalSort chained = .error ⟨.valueError, message⟩) :=
  topologicalSort_correct (by decide)

/-- Of two independent modules the one with the lesser key comes first. -/
def IndependentInOrder (specs result : List ModuleSpec) : Prop :=
  result.Pairwise fun s₁ s₂ => Independent specs s₁ → Independent specs s₂ → Precedes s₁ s₂

instance (specs result : List ModuleSpec) : Decidable (IndependentInOrder specs result) :=
  inferInstanceAs (Decidable (result.Pairwise _))

/-- Independent modules come in the order in which they were found. -/
theorem independentInOrder_iff {specs : List ModuleSpec}
    (distinct : (specs.map ModuleSpec.name).Nodup) (acyclic : Acyclic specs) :
    ∃ result, topologicalSort specs = .ok result ∧
      (IndependentInOrder specs result ↔ IndependentInOrder specs specs) := by
  have sorted := topologicalSort_through distinct
  cases ends : topologicalSort specs with
  | error e =>
      rw [ends] at sorted
      exact absurd acyclic sorted.2
  | ok result =>
      rw [ends] at sorted
      obtain ⟨progress, through, rfl⟩ := sorted
      refine ⟨progress.result, rfl, ?_⟩
      have filtered : ∀ xs : List ModuleSpec, IndependentInOrder specs xs ↔
          (xs.filter (Independent specs)).Pairwise Precedes := by
        intro xs
        simp only [IndependentInOrder, List.pairwise_filter, decide_eq_true_eq]
      rw [filtered, filtered, through.independent]

/-- Two modules without dependencies, found in the order of their names. -/
def apart : List ModuleSpec := [⟨"a", true, 200, []⟩, ⟨"b", true, 100, []⟩]

theorem acyclic_apart : Acyclic apart := by
  have undeclared : ∀ spec ∈ apart, spec.dependsOn = [] := by decide
  have none_needed : ∀ name dep, ¬ DependsOn apart name dep := by
    rintro name dep ⟨⟨spec, mem, -, declared⟩, -⟩
    rw [undeclared spec mem] at declared
    exact nomatch declared
  intro name cycle
  cases cycle with
  | single needs => exact none_needed _ _ needs
  | tail _ needs => exact none_needed _ _ needs

theorem independentInOrder_apart : ∃ result, topologicalSort apart = .ok result ∧
    (IndependentInOrder apart result ↔ IndependentInOrder apart apart) :=
  independentInOrder_iff (by decide) acyclic_apart

/-- The module found first stays first, whatever its order says. -/
theorem independent_out_of_order : Acyclic apart ∧
    topologicalSort apart = .ok apart ∧ ¬ IndependentInOrder apart apart := by
  have a_found : byName apart "a" = some ⟨"a", true, 200, []⟩ := by decide
  have b_found : byName apart "b" = some ⟨"b", true, 100, []⟩ := by decide
  have a_listed : visitNew apart ⟨[], []⟩ ⟨"a", true, 200, []⟩ =
      .ok ⟨["a"], [⟨"a", true, 200, []⟩]⟩ := by
    rw [visitNew, if_neg (by decide), visit_module (by decide) (by decide) a_found, visitEach]
    rfl
  have b_listed : visitNew apart ⟨["a"], [⟨"a", true, 200, []⟩]⟩ ⟨"b", true, 100, []⟩ =
      .ok ⟨["b", "a"], apart⟩ := by
    rw [visitNew, if_neg (by decide), visit_module (by decide) (by decide) b_found, visitEach]
    rfl
  refine ⟨acyclic_apart, ?_, by decide⟩
  have run : apart.foldlM (visitNew apart) ⟨[], []⟩ = .ok ⟨["b", "a"], apart⟩ := by
    rw [apart, List.foldlM_cons, ← apart, a_listed]
    change (visitNew apart _ ⟨"b", true, 100, []⟩ >>= pure) = _
    rw [b_listed]
    rfl
  have none_left : (apart.filter fun s => s.name ∉ apart.map ModuleSpec.name) = [] := by decide
  rw [topologicalSort, run]
  simp only [none_left, List.mergeSort_nil, List.append_nil]

end ModuleDiscovery

end AcojWorker
