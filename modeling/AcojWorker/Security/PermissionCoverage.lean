import AcojWorker.Security.PermissionRegistry
import Mathlib.Data.List.Induction

/-!
# What the registry covers

The scan finds of every route the least of its keys. From the texts `key[name]` every key is
read back, so the registry lists exactly those least keys; it lists the enforced keys exactly
if each of them is the least one of some route.
-/

namespace AcojWorker

open Python

namespace PermissionRegistry

/-! ### Dependencies and routes at any depth -/

/-- The call is that of a dependency at some depth below the node. -/
inductive Dependant.DependsOn : Dependant → Call → Prop where
  | direct {d dependency : Dependant} {call : Call} (h : dependency ∈ d.dependencies)
      (own : dependency.call = some call) : DependsOn d call
  | deeper {d dependency : Dependant} {call : Call} (h : dependency ∈ d.dependencies)
      (below : DependsOn dependency call) : DependsOn d call

/-- The route is listed, or offered by something that is. -/
inductive Serves : List Route → ApiRoute → Prop where
  | listed {routes : List Route} {route : ApiRoute} (h : .api route ∈ routes) :
      Serves routes route
  | offered {routes effectiveCandidates : List Route} {route : ApiRoute}
      (h : .group effectiveCandidates ∈ routes) (below : Serves effectiveCandidates route) :
      Serves routes route

theorem dependsOn_iff {d : Dependant} {call : Call} :
    d.DependsOn call ↔ ∃ dependency ∈ d.dependencies,
      dependency.call = some call ∨ dependency.DependsOn call := by
  constructor
  · intro h
    cases h with
    | direct h own => exact ⟨_, h, .inl own⟩
    | deeper h below => exact ⟨_, h, .inr below⟩
  · rintro ⟨dependency, h, own | below⟩
    · exact .direct h own
    · exact .deeper h below

mutual

theorem mem_iterDependantCalls {call : Call} :
    ∀ d : Dependant, call ∈ iterDependantCalls d ↔ d.DependsOn call
  | .node own dependencies => by
      rw [iterDependantCalls, mem_iterCallsOf dependencies, dependsOn_iff, Dependant.dependencies]

theorem mem_iterCallsOf {call : Call} : ∀ ds : List Dependant,
    call ∈ iterCallsOf ds ↔ ∃ d ∈ ds, d.call = some call ∨ d.DependsOn call
  | [] => by simp [iterCallsOf]
  | d :: ds => by
      rw [iterCallsOf, List.mem_append, List.mem_append, mem_iterDependantCalls d,
        mem_iterCallsOf ds, Option.mem_toList, List.exists_mem_cons_iff]

end

theorem serves_cons {first : Route} (routes : List Route) {route : ApiRoute} :
    Serves (first :: routes) route ↔ Serves [first] route ∨ Serves routes route := by
  constructor
  · intro h
    cases h with
    | listed h =>
        obtain same | h := List.mem_cons.mp h
        · exact .inl (.listed (List.mem_singleton.mpr same))
        · exact .inr (.listed h)
    | offered h below =>
        obtain same | h := List.mem_cons.mp h
        · exact .inl (.offered (List.mem_singleton.mpr same) below)
        · exact .inr (.offered h below)
  · rintro (h | h)
    · cases h with
      | listed h => exact .listed (List.mem_cons.mpr (.inl (List.mem_singleton.mp h)))
      | offered h below =>
          exact .offered (List.mem_cons.mpr (.inl (List.mem_singleton.mp h))) below
    · cases h with
      | listed h => exact .listed (List.mem_cons_of_mem _ h)
      | offered h below => exact .offered (List.mem_cons_of_mem _ h) below

mutual

theorem mem_routesOf {route : ApiRoute} :
    ∀ entry : Route, route ∈ routesOf entry ↔ Serves [entry] route
  | .api own => by
      rw [routesOf, List.mem_singleton]
      constructor
      · rintro rfl
        exact .listed (List.mem_singleton_self _)
      · intro h
        cases h with
        | listed h => exact Route.api.inj (List.mem_singleton.mp h)
        | offered h => exact nomatch List.mem_singleton.mp h
  | .group effectiveCandidates => by
      rw [routesOf, mem_iterApiRouteCandidates effectiveCandidates]
      constructor
      · exact fun h => .offered (List.mem_singleton_self _) h
      · intro h
        cases h with
        | listed h => exact nomatch List.mem_singleton.mp h
        | offered h below => exact Route.group.inj (List.mem_singleton.mp h) ▸ below
  | .other => by
      rw [routesOf]
      constructor
      · exact nofun
      · intro h
        cases h with
        | listed h => exact nomatch List.mem_singleton.mp h
        | offered h => exact nomatch List.mem_singleton.mp h

theorem mem_iterApiRouteCandidates {route : ApiRoute} :
    ∀ routes : List Route, route ∈ iterApiRouteCandidates routes ↔ Serves routes route
  | [] => by
      rw [iterApiRouteCandidates]
      constructor
      · exact nofun
      · intro h
        cases h with
        | listed h => exact nomatch h
        | offered h => exact nomatch h
  | first :: routes => by
      rw [iterApiRouteCandidates, List.mem_append, mem_routesOf first,
        mem_iterApiRouteCandidates routes, serves_cons routes]

end

/-! ### Keys -/

/-- A method besides `HEAD` and `OPTIONS`. -/
def HasMethod (route : ApiRoute) : Prop :=
  ∃ method ∈ route.methods.getD [], method ∉ ["HEAD", "OPTIONS"]

/-- Some dependency of the route is `require_permission(permission_code)`. -/
def Enforces (route : ApiRoute) (permissionCode : String) : Prop :=
  route.dependant.DependsOn (.requirePermission permissionCode)

/-- The keys that have to be in the registry. -/
def EnforcedKey (routes : List Route) (key : String) : Prop :=
  permissionKeyPattern key = true ∧
    ∃ route, Serves routes route ∧ HasMethod route ∧ Enforces route key

/-- A key the scan finds at a route: blanks around it do not count. -/
def ScannedKey (route : ApiRoute) (key : String) : Prop :=
  permissionKeyPattern key = true ∧
    ∃ permissionCode, Enforces route permissionCode ∧
      String.ofList (strip permissionCode.toList) = key

/-- A key before which no other key of some route with a method comes. -/
def LeastKey (routes : List Route) (key : String) : Prop :=
  ∃ route, Serves routes route ∧ HasMethod route ∧ ScannedKey route key ∧
    ∀ other, ScannedKey route other → key ≤ other

theorem permissionKeyOf_eq_some {call : Call} {key : String} :
    permissionKeyOf call = some key ↔ permissionKeyPattern key = true ∧
      ∃ permissionCode, call = .requirePermission permissionCode ∧
        String.ofList (strip permissionCode.toList) = key := by
  cases call with
  | other name => exact ⟨nofun, fun h => nomatch h.2⟩
  | requirePermission permissionCode =>
      change (if _ then none else some (String.ofList (strip permissionCode.toList))) = some key ↔ _
      rw [ite_eq_iff]
      constructor
      · rintro (⟨_, h⟩ | ⟨counts, h⟩)
        · cases h
        · have same := Option.some.inj h
          rw [not_or, Bool.not_eq_false] at counts
          exact ⟨same ▸ counts.2, permissionCode, rfl, same⟩
      · rintro ⟨pattern, _, ⟨⟩, rfl⟩
        refine .inr ⟨?_, rfl⟩
        rintro (empty | fails)
        · have empty' : String.ofList (strip permissionCode.toList) = "" := empty
          rw [empty'] at pattern
          exact absurd pattern (by decide)
        · exact absurd pattern (Bool.not_eq_true _ ▸ fails)

theorem mem_scannedKeys {route : ApiRoute} {key : String} :
    key ∈ (iterDependantCalls route.dependant).filterMap permissionKeyOf ↔
      ScannedKey route key := by
  rw [List.mem_filterMap, ScannedKey]
  constructor
  · rintro ⟨call, hcall, hkey⟩
    obtain ⟨pattern, permissionCode, rfl, same⟩ := permissionKeyOf_eq_some.mp hkey
    exact ⟨pattern, permissionCode, (mem_iterDependantCalls _).mp hcall, same⟩
  · rintro ⟨pattern, permissionCode, enforced, same⟩
    exact ⟨_, (mem_iterDependantCalls _).mpr enforced,
      permissionKeyOf_eq_some.mpr ⟨pattern, permissionCode, rfl, same⟩⟩

/-- The first of the sorted elements is the least one. -/
theorem head?_insertionSort {α : Type} [LinearOrder α] {xs : List α} {a : α} :
    (xs.insertionSort (· ≤ ·)).head? = some a ↔ a ∈ xs ∧ ∀ b ∈ xs, a ≤ b := by
  have sorted := List.pairwise_insertionSort (· ≤ ·) xs
  have members : ∀ b, b ∈ xs.insertionSort (· ≤ ·) ↔ b ∈ xs :=
    fun b => List.mem_insertionSort (· ≤ ·)
  simp only [← members]
  generalize xs.insertionSort (· ≤ ·) = ys at sorted
  cases ys with
  | nil => exact ⟨nofun, fun h => nomatch h.1⟩
  | cons y ys =>
      rw [List.pairwise_cons] at sorted
      constructor
      · rintro ⟨⟩
        refine ⟨List.mem_cons_self .., fun b hb => ?_⟩
        obtain rfl | hb := List.mem_cons.mp hb
        · exact le_refl _
        · exact sorted.1 b hb
      · rintro ⟨ha, least⟩
        obtain rfl | ha := List.mem_cons.mp ha
        · rfl
        · exact congrArg some (le_antisymm (sorted.1 a ha) (least y (List.mem_cons_self ..)))

theorem extractPermissionKey_eq_some {route : ApiRoute} {key : String} :
    extractPermissionKey route = some key ↔
      ScannedKey route key ∧ ∀ other, ScannedKey route other → key ≤ other := by
  simp only [extractPermissionKey, head?_insertionSort, mem_scannedKeys]

theorem normalizeMethods_ne_nil {route : ApiRoute} :
    normalizeMethods route ≠ [] ↔ HasMethod route := by
  have mem : ∀ method, method ∈ normalizeMethods route ↔
      method ∈ route.methods.getD [] ∧ method ∉ ["HEAD", "OPTIONS"] := by
    intro method
    rw [normalizeMethods, List.mem_insertionSort, List.mem_filter, decide_eq_true_eq]
  constructor
  · intro h
    obtain ⟨method, hmethod⟩ := List.exists_mem_of_ne_nil _ h
    exact ⟨method, (mem method).mp hmethod⟩
  · rintro ⟨method, h⟩
    exact List.ne_nil_of_mem ((mem method).mpr h)

/-! ### The scan -/

/-- A route adds its least key, unless it has no method or the key was seen. -/
theorem mem_scanRoute {scanned : Scanned} {route : ApiRoute} {key : String} :
    key ∈ (scanRoute scanned route).seenPermissionKeys ↔
      key ∈ scanned.seenPermissionKeys ∨
        HasMethod route ∧ extractPermissionKey route = some key := by
  rw [← normalizeMethods_ne_nil, scanRoute]
  cases hkey : extractPermissionKey route with
  | none => simp
  | some own =>
      cases normalizeMethods route with
      | nil => simp
      | cons method methods =>
          by_cases seen : own ∈ scanned.seenPermissionKeys
          · simp only [if_pos seen]
            constructor
            · exact .inl
            · rintro (h | ⟨_, ⟨⟩⟩)
              · exact h
              · exact seen
          · simp only [if_neg seen, List.mem_append, List.mem_singleton, Option.some.injEq]
            constructor
            · rintro (h | rfl)
              · exact .inl h
              · exact .inr ⟨List.cons_ne_nil _ _, rfl⟩
            · rintro (h | ⟨_, rfl⟩)
              · exact .inl h
              · exact .inr rfl

/-- The keys seen are those of the resources. -/
theorem seen_scanRoute {scanned : Scanned} {route : ApiRoute}
    (h : scanned.seenPermissionKeys = scanned.resources.map PermissionResource.permissionKey) :
    (scanRoute scanned route).seenPermissionKeys =
      (scanRoute scanned route).resources.map PermissionResource.permissionKey := by
  rw [scanRoute]
  split
  · split
    · exact h
    · rw [List.map_append, ← h]
      rfl
  · exact h

theorem scan_routes (routes : List ApiRoute) :
    let scanned := routes.foldl scanRoute ⟨[], []⟩
    scanned.seenPermissionKeys = scanned.resources.map PermissionResource.permissionKey ∧
      ∀ key, key ∈ scanned.seenPermissionKeys ↔
        ∃ route ∈ routes, HasMethod route ∧ extractPermissionKey route = some key := by
  induction routes using List.reverseRecOn with
  | nil => exact ⟨rfl, fun key => ⟨nofun, fun h => nomatch h⟩⟩
  | append_singleton routes route ih =>
      simp only [List.foldl_append, List.foldl_cons, List.foldl_nil] at ih ⊢
      refine ⟨seen_scanRoute ih.1, fun key => ?_⟩
      rw [mem_scanRoute, ih.2]
      constructor
      · rintro (⟨r, hr, h⟩ | h)
        · exact ⟨r, List.mem_append_left _ hr, h⟩
        · exact ⟨route, List.mem_append_right _ (List.mem_singleton_self _), h⟩
      · rintro ⟨r, hr, h⟩
        obtain hr | hr := List.mem_append.mp hr
        · exact .inl ⟨r, hr, h⟩
        · exact .inr (List.mem_singleton.mp hr ▸ h)

/-- The scan finds the least keys of the routes that have a method. -/
theorem mem_scanPermissionRegistry {routes : List Route} {key : String} :
    key ∈ (scanPermissionRegistry routes).map PermissionResource.permissionKey ↔
      LeastKey routes key := by
  obtain ⟨keys, members⟩ := scan_routes (iterApiRouteCandidates routes)
  have sorted : key ∈ (scanPermissionRegistry routes).map PermissionResource.permissionKey ↔
      key ∈ ((iterApiRouteCandidates routes).foldl scanRoute ⟨[], []⟩).resources.map
        PermissionResource.permissionKey :=
    ((List.perm_insertionSort _ _).map _).mem_iff
  rw [sorted, ← keys, members]
  constructor
  · rintro ⟨route, hroute, method, least⟩
    have served := (mem_iterApiRouteCandidates routes).mp hroute
    exact ⟨route, served, method, extractPermissionKey_eq_some.mp least⟩
  · rintro ⟨route, served, method, least⟩
    exact ⟨route, (mem_iterApiRouteCandidates routes).mpr served, method,
      extractPermissionKey_eq_some.mpr least⟩

/-! ### Reading the keys back -/

theorem mem_splitOn {c : Char} (sep : Char) {cs : List Char} (h : c ∈ cs) (other : c ≠ sep) :
    ∃ part ∈ cs.splitOn sep, c ∈ part := by
  induction cs with
  | nil => cases h
  | cons x xs ih =>
      rw [List.splitOn_cons_eq_if_modifyHead]
      by_cases hx : (x == sep) = true
      · rw [if_pos hx]
        have tail : c ∈ xs := by
          obtain rfl | h := List.mem_cons.mp h
          · exact absurd (eq_of_beq hx) other
          · exact h
        obtain ⟨part, hpart, hc⟩ := ih tail
        exact ⟨part, List.mem_cons_of_mem _ hpart, hc⟩
      · rw [if_neg hx]
        cases parts : xs.splitOn sep with
        | nil => exact absurd parts (List.splitOn_ne_nil sep xs)
        | cons part rest =>
            rw [List.modifyHead_cons]
            obtain rfl | h := List.mem_cons.mp h
            · exact ⟨_, List.mem_cons_self .., List.mem_cons_self ..⟩
            · obtain ⟨p, hp, hc⟩ := ih h
              rw [parts] at hp
              obtain rfl | hp := List.mem_cons.mp hp
              · exact ⟨_, List.mem_cons_self .., List.mem_cons_of_mem _ hc⟩
              · exact ⟨p, List.mem_cons_of_mem _ hp, hc⟩

theorem noBracket_of_pattern {key : String} (pattern : permissionKeyPattern key = true) :
    '[' ∉ key.toList := by
  intro h
  obtain ⟨part, hpart, hc⟩ := mem_splitOn ':' h (by decide)
  have parts := (Bool.and_eq_true_iff.mp pattern).2
  have chars := (Bool.and_eq_true_iff.mp (List.all_eq_true.mp parts part hpart)).2
  exact absurd (List.all_eq_true.mp chars '[' hc) (by decide)

/-- Whatever the name is, the key is read back. -/
theorem keyOfResource_resourceText {r : PermissionResource}
    (pattern : permissionKeyPattern r.permissionKey = true) :
    keyOfResource r.resourceText = r.permissionKey := by
  have text : r.resourceText.toList = r.permissionKey.toList ++ '[' :: (r.name ++ "]").toList := by
    rw [PermissionResource.resourceText, String.append_assoc, String.append_assoc,
      String.toList_append, String.toList_append]
    rfl
  have before : r.permissionKey.toList.findIdx? (· = '[') = none := by
    rw [List.findIdx?_eq_none_iff]
    intro c hc
    rw [decide_eq_false_iff_not]
    rintro rfl
    exact noBracket_of_pattern pattern hc
  have first : r.resourceText.toList.findIdx? (· = '[') = some r.permissionKey.toList.length := by
    rw [text, List.findIdx?_append, before, List.findIdx?_cons]
    simp
  rw [keyOfResource, first, text]
  simp only [List.take_left', String.ofList_toList]

/-- What is listed after the registry is written: the keys that were scanned. -/
theorem listed_keys {routes : List Route} (redis : Strings)
    (found : scanPermissionRegistry routes ≠ []) :
    ∃ written, syncPermissionRegistry routes (some redis) =
        .ok (scanPermissionRegistry routes, written) ∧
      listRegisteredPermissionKeys (some written) =
        .ok ((scanPermissionRegistry routes).map PermissionResource.permissionKey) := by
  refine ⟨_, by rw [syncPermissionRegistry, if_neg found], ?_⟩
  have apart : permissionResourceCacheKey ≠ permissionResourceMethodCacheKey := by decide
  rw [listRegisteredPermissionKeys, listPermissionResources, Function.update_of_ne apart,
    Function.update_self]
  change Except.ok (List.map _ (List.map _ (List.map _ _))) = _
  rw [List.map_map, List.map_map]
  congr 1
  apply List.map_congr_left
  intro r hr
  apply keyOfResource_resourceText
  obtain ⟨_, _, _, scanned, _⟩ := mem_scanPermissionRegistry.mp (List.mem_map_of_mem hr)
  exact scanned.1

/-- The registry lists exactly the enforced keys. -/
def Covers (routes : List Route) (redis : Strings) : Prop :=
  ∃ resources written keys,
    syncPermissionRegistry routes (some redis) = .ok (resources, written) ∧
    listRegisteredPermissionKeys (some written) = .ok keys ∧
    ∀ key, key ∈ keys ↔ EnforcedKey routes key

/-- The registry is complete exactly if every enforced key is the least one of some route, and
right exactly if every least key is enforced as it is written. -/
theorem covers_iff {routes : List Route} (redis : Strings)
    (found : scanPermissionRegistry routes ≠ []) :
    Covers routes redis ↔
      (∀ key, EnforcedKey routes key → LeastKey routes key) ∧
        ∀ key, LeastKey routes key → EnforcedKey routes key := by
  obtain ⟨written, synced, listed⟩ := listed_keys redis found
  constructor
  · rintro ⟨resources, written', keys, synced', listed', same⟩
    rw [synced] at synced'
    cases synced'
    rw [listed] at listed'
    cases listed'
    constructor
    · exact fun key h => mem_scanPermissionRegistry.mp ((same key).mpr h)
    · exact fun key h => (same key).mp (mem_scanPermissionRegistry.mpr h)
  · rintro ⟨complete, right⟩
    refine ⟨_, written, _, synced, listed, fun key => ?_⟩
    rw [mem_scanPermissionRegistry]
    exact ⟨right key, complete key⟩

/-! ### Two keys on one route -/

/-- One route with the dependencies that require the given permissions. -/
def routeRequiring (permissionCodes : List String) : Route :=
  .api {
    path := "/api/v1/admin/judge"
    summary := some "judge [beta]"
    endpointName := "judge"
    methods := some ["GET"]
    tags := []
    dependant := .node none (permissionCodes.map fun code =>
      .node (some (.requirePermission code)) []) }

/-- Of two permissions required by one route the greater one is not registered. -/
theorem covers_fails : ¬ ∀ routes redis, scanPermissionRegistry routes ≠ [] →
    Covers routes redis := by
  intro covers
  have found : scanPermissionRegistry [routeRequiring ["judge:read", "judge:write"]] ≠ [] := by
    decide +kernel
  obtain ⟨resources, written, keys, synced, listed, same⟩ := covers _ (fun _ => none) found
  obtain ⟨written', synced', listed'⟩ := listed_keys (fun _ => none) found
  rw [synced'] at synced
  cases synced
  rw [listed'] at listed
  cases listed
  have enforced : EnforcedKey [routeRequiring ["judge:read", "judge:write"]] "judge:write" := by
    exact ⟨by decide +kernel, _, .listed (List.mem_singleton_self _), ⟨"GET", by decide, by decide⟩,
      .direct (List.mem_cons_of_mem _ (List.mem_singleton_self _)) rfl⟩
  exact absurd ((same "judge:write").mpr enforced) (by decide +kernel)

/-- One permission, whatever the name of the route contains. -/
theorem covers_iff_one : Covers [routeRequiring ["judge:read"]] (fun _ => none) ↔
    (∀ key, EnforcedKey [routeRequiring ["judge:read"]] key →
      LeastKey [routeRequiring ["judge:read"]] key) ∧
      ∀ key, LeastKey [routeRequiring ["judge:read"]] key →
        EnforcedKey [routeRequiring ["judge:read"]] key :=
  covers_iff _ (by decide +kernel)

end PermissionRegistry

end AcojWorker
