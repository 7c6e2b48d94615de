import AcojWorker.Python.Value
import Mathlib.Data.List.Sort
import Mathlib.Data.String.Basic

/-!
# The permission registry

At the start the routes are scanned for the permission keys they enforce, and the keys are
written to Redis, each together with the name of its route as `key[name]`. What may be granted
is read back from there.

Of a route only the least key is kept. The registry lists exactly the least keys of the routes
with a method of their own, whatever the names contain; a key that is nowhere the least one is
enforced and cannot be granted.
-/

namespace AcojWorker

open Python

namespace PermissionRegistry

/-! ### Applications -/

/-- A dependency: one built by `require_permission`, or any other. -/
inductive Call where
  | requirePermission (permissionCode : String)
  | other (name : String)
deriving DecidableEq, Repr

/-- The attribute `__permission_meta__`. -/
def Call.permissionMeta : Call → Option (List (String × String))
  | .requirePermission permissionCode => some [("permission_key", permissionCode)]
  | .other _ => none

/-- A node of the dependency tree of a route. -/
inductive Dependant where
  | node (call : Option Call) (dependencies : List Dependant)

def Dependant.call : Dependant → Option Call
  | .node call _ => call

def Dependant.dependencies : Dependant → List Dependant
  | .node _ dependencies => dependencies

structure ApiRoute where
  path : String
  summary : Option String
  endpointName : String
  methods : Option (List String)
  tags : List String
  dependant : Dependant

/-- What an application lists: an `APIRoute` or a wrapper of one, something that offers further
candidates, or neither. -/
inductive Route where
  | api (route : ApiRoute)
  | group (effectiveCandidates : List Route)
  | other

structure PermissionResource where
  permissionKey : String
  name : String
  routePath : String
  method : String
deriving DecidableEq, Repr

def PermissionResource.resourceText (r : PermissionResource) : String :=
  r.permissionKey ++ "[" ++ r.name ++ "]"

/-! ### The scan -/

mutual

def iterDependantCalls : Dependant → List Call
  | .node _ dependencies => iterCallsOf dependencies

/-- The calls of the dependencies, each followed by those below it. -/
def iterCallsOf : List Dependant → List Call
  | [] => []
  | d :: ds => d.call.toList ++ iterDependantCalls d ++ iterCallsOf ds

end

def normalizeMethods (route : ApiRoute) : List String :=
  ((route.methods.getD []).filter fun method =>
    decide (method ∉ ["HEAD", "OPTIONS"])).insertionSort (· ≤ ·)

/-- The pattern `^/api/v[0-9]+(?=/|$)`, removed. -/
def removeApiVersion (cs : List Char) : List Char :=
  if "/api/v".toList.isPrefixOf cs then
    let rest := cs.drop "/api/v".length
    match rest.takeWhile Char.isDigit, rest.dropWhile Char.isDigit with
    | _ :: _, [] => []
    | _ :: _, '/' :: after => '/' :: after
    | _, _ => cs
  else cs

def orSlash (cs : List Char) : List Char := if cs = [] then ['/'] else cs

def normalizeRoutePath (path : String) : List Char :=
  let normalized := orSlash (strip path.toList)
  if normalized = "/api".toList then ['/'] else orSlash (removeApiVersion normalized)

def stripSlashes (cs : List Char) : List Char := (cs.dropWhile (· = '/')).rdropWhile (· = '/')

def normalizePermissionRoutePath (route : ApiRoute) : String :=
  let normalized := normalizeRoutePath route.path
  let routeTags := (route.tags.map fun tag => stripSlashes tag.toList).filter (· ≠ [])
  let shortened := routeTags.findSome? fun tag =>
    if normalized = '/' :: tag then some ['/']
    else if ('/' :: tag ++ ['/']).isPrefixOf normalized then some (normalized.drop (tag.length + 1))
    else none
  String.ofList (shortened.getD normalized)

def resourceNameFallback : String := "未定义接口名称"

def resolveRouteName (route : ApiRoute) : String :=
  match route.summary.filter (· ≠ "") with
  | some summary => summary
  | none => if route.endpointName ≠ "" then route.endpointName else resourceNameFallback

/-- The character class `[a-z0-9*]`. -/
def isKeyChar (c : Char) : Bool := ('a' ≤ c && c ≤ 'z') || ('0' ≤ c && c ≤ '9') || c = '*'

/-- `PERMISSION_KEY_PATTERN.fullmatch`: two or more nonempty parts between colons. -/
def permissionKeyPattern (key : String) : Bool :=
  let parts := key.toList.splitOn ':'
  2 ≤ parts.length && parts.all fun part => part ≠ [] && part.all isKeyChar

/-- The key of one dependency, if it counts. -/
def permissionKeyOf (call : Call) : Option String :=
  match call.permissionMeta with
  | none => none
  | some [] => none
  | some permissionMeta =>
      let permissionKey :=
        String.ofList (strip ((permissionMeta.lookup "permission_key").getD "").toList)
      if permissionKey = "" ∨ permissionKeyPattern permissionKey = false then none
      else some permissionKey

def extractPermissionKey (route : ApiRoute) : Option String :=
  let permissionKeys := (iterDependantCalls route.dependant).filterMap permissionKeyOf
  (permissionKeys.insertionSort (· ≤ ·)).head?

mutual

/-- The routes a listed entry stands for. -/
def routesOf : Route → List ApiRoute
  | .api route => [route]
  | .group effectiveCandidates => iterApiRouteCandidates effectiveCandidates
  | .other => []

def iterApiRouteCandidates : List Route → List ApiRoute
  | [] => []
  | route :: routes => routesOf route ++ iterApiRouteCandidates routes

end

/-- The resources found so far, and the keys seen. -/
structure Scanned where
  resources : List PermissionResource
  seenPermissionKeys : List String

/-- One round of the loop over the routes. -/
def scanRoute (scanned : Scanned) (route : ApiRoute) : Scanned :=
  match extractPermissionKey route, normalizeMethods route with
  | some permissionKey, method :: _ =>
      if permissionKey ∈ scanned.seenPermissionKeys then scanned
      else
        ⟨scanned.resources ++ [⟨permissionKey, resolveRouteName route,
            normalizePermissionRoutePath route, method⟩],
          scanned.seenPermissionKeys ++ [permissionKey]⟩
  | _, _ => scanned

def scanPermissionRegistry (routes : List Route) : List PermissionResource :=
  let scanned := (iterApiRouteCandidates routes).foldl scanRoute ⟨[], []⟩
  scanned.resources.insertionSort fun a b => a.permissionKey ≤ b.permissionKey

/-! ### The registry in Redis

JSON is lossless here, so a stored text is represented by the value it encodes. -/

abbrev Strings : Type := String → Option Value

def permissionResourceCacheKey : String := "Cache:permission-resource"

def permissionResourceMethodCacheKey : String := "Cache:permission-resource-method"

def methodMap (resources : List PermissionResource) : List (String × Value) :=
  resources.foldl (fun fields r => Value.setField r.resourceText (.str r.method) fields) []

def syncPermissionRegistry (routes : List Route) (redis : Option Strings) :
    Except String (List PermissionResource × Strings) :=
  let resources := scanPermissionRegistry routes
  if resources = [] then
    .error "Permission registry scan returned 0 resources; refusing to write Redis"
  else
    match redis with
    | none => .error "Redis is required to sync permission registry"
    | some redis =>
        let resourceValues := resources.map fun r => Value.str r.resourceText
        let written := Function.update redis permissionResourceCacheKey (some (.list resourceValues))
        .ok (resources, Function.update written permissionResourceMethodCacheKey
          (some (.dict (methodMap resources))))

def listPermissionResources (redis : Option Strings) : Except String (List String) :=
  match redis with
  | none => .error "Redis is required to read permission registry"
  | some redis =>
      match redis permissionResourceCacheKey with
      | none => .error "Permission registry is not synced in Redis"
      | some value =>
          match value.elements with
          | .error exc => .error exc.message
          | .ok items => .ok (items.map Value.display)

/-- What stands before the first bracket. -/
def keyOfResource (resource : String) : String :=
  match resource.toList.findIdx? (· = '[') with
  | some index => String.ofList (resource.toList.take index)
  | none => resource

/-- The set that is returned, as the list of its members. -/
def listRegisteredPermissionKeys (redis : Option Strings) : Except String (List String) := do
  let resources ← listPermissionResources redis
  return resources.map keyOfResource

end PermissionRegistry

end AcojWorker
