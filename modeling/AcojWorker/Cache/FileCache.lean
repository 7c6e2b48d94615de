import AcojWorker.Cache.Disk
import Mathlib.Data.List.Sort

/-!
# The file cache

Contents are cached under their declared SHA-256 or, without one, under the name of the
object. A hash is trusted as it is; a name is trusted for a minute and then checked against
the remote storage. Storing a content triggers an eviction when the cache is too large.
-/

namespace AcojWorker.FileCache

open Python Effect

/-- The configuration of the cache, and the hash function. -/
structure Settings where
  enabled : Bool
  maxBytes : Int
  ttlSeconds : Int
  sha256 : Bytes → String

def revalidateInterval : ℚ := 60

def touchCooldown : ℚ := 60

def lruGracePeriod : ℚ := 60

def evictTargetRatio : ℚ := 4 / 5

/-! ### Locks -/

/-- The end of a `with` block: the lock is released, whatever the outcome. -/
def leaving {α : Type} (key : Key) (path : α → Option Path) (block : Caching α) : Caching α := do
  let outcome ← block.attempt
  call (.release key (outcome.map path))
  liftM outcome

/-- `with _key_lock(key): …`. -/
def withKeyLock {α : Type} (key : Key) (path : α → Option Path) (block : Caching α) :
    Caching α := do
  call (.acquire key)
  leaving key path block

/-- `with _try_key_lock(key) as acquired: if acquired: …`. -/
def tryKeyLock {α : Type} (key : Key) (evicting : Option ℚ) (skipped : α) (block : Caching α) :
    Caching α := do
  let acquired : Bool ← call (.tryAcquire key evicting)
  if acquired then leaving key (fun _ => none) block else pure skipped

/-! ### Files -/

/-- `_unlink`. -/
def unlink (path : Path) : Caching Unit :=
  Program.tryCatch
    (do
      let found : Bool ← call (.pathExists path)
      if found then call (.unlink path) else pure ())
    (fun e => if e.isOSError then pure () else .raise e)

def removeEntry (key : Key) : Caching Unit := do
  unlink (dataPath key)
  unlink (metaPath key)

/-- `None` for a meta file that is missing or no JSON document. -/
def readMeta (mpath : Path) : Caching Value :=
  Program.tryCatch (call (.loadJson mpath)) fun e =>
    if e.kind = .fileNotFoundError ∨ e.kind = .jsonDecodeError then pure .none else .raise e

/-- `_unlink` of a temporary file. -/
def unlinkTemp (tmp : Nat) : Caching Unit :=
  Program.tryCatch (call (.unlinkTemp tmp)) fun e => if e.isOSError then pure () else .raise e

def writeMeta (mpath : Path) (document : Value) : Caching Unit := do
  let tmp : Nat ← call (.tempSibling mpath)
  Program.tryCatch
    (do
      call (.mkdirParent mpath)
      call (.writeTemp tmp (.json document))
      call (.replace tmp mpath))
    (fun e => if e.isOSError then unlinkTemp tmp else .raise e)

def updateMeta (mpath : Path) (updates : List (String × Value)) : Caching Unit := do
  match ← readMeta mpath with
  | .none => pure ()
  | document => do
      let document ← document.update updates
      writeMeta mpath document

/-- `last_accessed_at` is not written again within the cool-down. -/
def touchMeta (mpath : Path) : Caching Unit := do
  match ← readMeta mpath with
  | .none => pure ()
  | document => do
      let now : ℚ ← call .now
      let accessed ← (← document.get "last_accessed_at" (.int 0)).number
      if now - accessed < touchCooldown then pure ()
      else do
        let document ← document.setItem "last_accessed_at" (.float now)
        writeMeta mpath document

/-! ### Eviction -/

def calculateTotalSize : Caching ℚ := do
  let found : Bool ← call .rootExists
  if found then do
    let paths : List Path ← call .metaFiles
    paths.foldlM (fun total path => Program.tryCatch
      (do
        let document : Value ← call (.loadJson path)
        let size ← (← document.get "size_bytes" (.int 0)).number
        return total + size)
      (fun _ => pure total)) 0
  else return 0

/-- What one meta file adds to the statistics. -/
def collectEntry (entries : List Entry) (path : Path) : Caching (List Entry) :=
  Program.tryCatch
    (do
      let document : Value ← call (.loadJson path)
      match keyFromMetaPath path with
      | some key =>
          if key ≠ "" then do
            let size ← document.get "size_bytes" (.int 0)
            let lastAccessed ← document.get "last_accessed_at" (.int 0)
            return entries ++ [⟨key, size, lastAccessed⟩]
          else return entries
      | none => return entries)
    (fun _ => pure entries)

def collectStats : Caching (List Entry) := do
  let found : Bool ← call .rootExists
  if found then do
    let paths : List Path ← call .metaFiles
    paths.foldlM collectEntry []
  else return []

/-- The entries outside of the grace period, least recently accessed first. -/
def evictionCandidates (now : ℚ) (entries : List Entry) : Except Exc (List Entry) := do
  let dated ← entries.mapM fun entry => do return (← entry.lastAccessed.number, entry)
  return ((dated.filter fun x => lruGracePeriod < now - x.1).insertionSort
    fun x y => x.1 ≤ y.1).map Prod.snd

/-- One candidate: it is evicted if its lock can be taken. -/
def evictEntry (now : ℚ) (freed : ℚ) (entry : Entry) : Caching ℚ :=
  tryKeyLock entry.key (some now) freed do
    removeEntry entry.key
    let size ← entry.size.number
    return freed + size

def evictCandidates (needBytes : Int) (now : ℚ) : ℚ → List Entry → Caching Unit
  | _, [] => pure ()
  | freed, entry :: candidates =>
      if needBytes ≤ freed then pure ()
      else do
        let freed ← evictEntry now freed entry
        evictCandidates needBytes now freed candidates

/-- `_evict_lru`; `since` is when the store that led to it took its time. -/
def evictLru (needBytes : Int) (since : Option ℚ) : Caching Unit := do
  let entries ← collectStats
  let now : ℚ ← call (.evictionTime entries since)
  let candidates ← evictionCandidates now entries
  evictCandidates needBytes now 0 candidates

def evictLruIfNeeded (settings : Settings) (newSize : Int) (since : Option ℚ) : Caching Unit := do
  let total ← calculateTotalSize
  if total + newSize ≤ settings.maxBytes then pure ()
  else evictLru (Value.truncate (total + newSize - settings.maxBytes * evictTargetRatio)) since

/-! ### Storing -/

def storedMeta (content : Bytes) (sha256 etag objectName : String) (now : ℚ) : Value :=
  .dict [
    ("etag", .str etag),
    ("sha256", .str sha256),
    ("size_bytes", .int content.length),
    ("object_name", .str objectName),
    ("cached_at", .float now),
    ("last_accessed_at", .float now),
    ("last_validated_at", .float now)]

/-- The locked part of `_store`, with the time it takes. -/
def storeFiles (key : Key) (content : Bytes) (sha256 etag objectName : String) : Caching ℚ := do
  call (.mkdirParent (dataPath key))
  let tmpData : Nat ← call (.tempSibling (dataPath key))
  let tmpMeta : Nat ← call (.tempSibling (metaPath key))
  let now : ℚ ← call .now
  call (.writeTemp tmpData (.data content))
  call (.replace tmpData (dataPath key))
  call (.writeTemp tmpMeta (.json (storedMeta content sha256 etag objectName now)))
  call (.replace tmpMeta (metaPath key))
  return now

def store (settings : Settings) (key : Key) (content : Bytes) (sha256 etag objectName : String) :
    Caching Unit := do
  let now ← withKeyLock key (fun _ => none) (storeFiles key content sha256 etag objectName)
  evictLruIfNeeded settings 0 (some now)

/-! ### Resolving -/

def headOrNone (objectName : String) : Caching (Option String) :=
  Program.tryCatch (call (.headObject objectName)) (fun _ => pure none)

/-- Whether the entry of an object name has been validated recently. -/
def isFresh (key : Key) : Caching Bool := do
  let found : Bool ← call (.pathExists (dataPath key))
  if found then do
    let document ← readMeta (metaPath key)
    if document.truthy then do
      let now : ℚ ← call .now
      let validated ← (← document.get "last_validated_at" (.int 0)).number
      return decide (now - validated < revalidateInterval)
    else return false
  else return false

/-- Whether the cache is trusted without a question to the remote storage. -/
def isTrusted (sha256 : String) (key : Key) : Caching Bool :=
  if sha256 ≠ "" then call (.pathExists (dataPath key)) else isFresh key

/-- A cached file that is returned. -/
def hit (key : Key) : Caching (Option Path) := do
  touchMeta (metaPath key)
  return some (dataPath key)

/-- A content that is addressed by its hash stays valid without its object. -/
def isKept (sha256 : String) (key : Key) : Caching Bool :=
  if sha256 ≠ "" then call (.pathExists (dataPath key)) else pure false

/-- The remote object is gone. -/
def remoteGone (sha256 : String) (key : Key) : Caching (Option Path) := do
  let kept ← isKept sha256 key
  if kept then hit key
  else do
    let found : Bool ← call (.pathExists (dataPath key))
    if found then do
      removeEntry key
      return none
    else return none

/-- `meta and meta.get("etag") == remote_etag`. -/
def sameEtag (document : Value) (remoteEtag : String) : Except Exc Bool :=
  if document.truthy then do
    let etag ← document.get "etag" .none
    return etag.isText remoteEtag
  else return false

/-- Whether the cached entry is still the remote one; if it is not, it is removed. -/
def isCurrent (key : Key) (remoteEtag : String) : Caching Bool := do
  let found : Bool ← call (.pathExists (dataPath key))
  if found then do
    let document ← readMeta (metaPath key)
    let same ← sameEtag document remoteEtag
    if same then do
      let validated : ℚ ← call .now
      let accessed : ℚ ← call .now
      updateMeta (metaPath key)
        [("last_validated_at", .float validated), ("last_accessed_at", .float accessed)]
      return true
    else do
      removeEntry key
      return false
  else return false

def hashMismatch (objectName expected actual : String) : Exc :=
  ⟨.runtimeError, "SHA256 mismatch for " ++ objectName ++ ": expected=" ++ expected ++
    ", actual=" ++ actual⟩

/-- The hash of a downloaded content, which is checked if one is declared. -/
def checkedHash (settings : Settings) (objectName sha256 : String) (content : Bytes) :
    Except Exc String :=
  if sha256 = "" then return settings.sha256 content
  else if settings.sha256 content ≠ sha256 then
    .error (hashMismatch objectName sha256 (settings.sha256 content))
  else return sha256

def downloadAndStore (settings : Settings) (objectName sha256 : String) (key : Key)
    (remoteEtag : String) : Caching (Option Path) := do
  let content : Bytes ← call (.download objectName)
  let digest ← checkedHash settings objectName sha256 content
  store settings key content digest remoteEtag objectName
  return some (dataPath key)

/-- The cache is not trusted: the remote storage is asked. -/
def revalidate (settings : Settings) (objectName sha256 : String) (key : Key) :
    Caching (Option Path) := do
  call .getStorage
  match ← headOrNone objectName with
  | none => remoteGone sha256 key
  | some remoteEtag => do
      let current ← isCurrent key remoteEtag
      if current then return some (dataPath key)
      else downloadAndStore settings objectName sha256 key remoteEtag

def resolveLocked (settings : Settings) (objectName sha256 : String) (key : Key) :
    Caching (Option Path) := do
  let trusted ← isTrusted sha256 key
  if trusted then hit key
  else revalidate settings objectName sha256 key

def resolveOrDownload (settings : Settings) (objectName sha256 : String) :
    Caching (Option Path) :=
  if settings.enabled then do
    call .ensureRoot
    let key := cacheKey sha256 objectName
    withKeyLock key id (resolveLocked settings objectName sha256 key)
  else call (.downloadDirect objectName)

/-! ### Invalidation and expiry -/

def invalidate (settings : Settings) (objectName sha256 : String) : Caching Unit :=
  if settings.enabled then
    let key := cacheKey sha256 objectName
    withKeyLock key (fun _ => none) (removeEntry key)
  else pure ()

/-- One meta file of a purge; whatever goes wrong with it, the purge goes on. -/
def purgeFile (settings : Settings) (now : ℚ) (path : Path) : Caching Unit :=
  Program.tryCatch
    (do
      let document : Value ← call (.loadJson path)
      let accessed ← (← document.get "last_accessed_at" (.int 0)).number
      if settings.ttlSeconds < now - accessed then
        match keyFromMetaPath path with
        | some key => if key ≠ "" then tryKeyLock key none () (removeEntry key) else pure ()
        | none => pure ()
      else pure ())
    (fun _ => pure ())

def purgeExpired (settings : Settings) : Caching Unit :=
  if settings.enabled then do
    call .ensureRoot
    let found : Bool ← call .rootExists
    if found then do
      let now : ℚ ← call .now
      let paths : List Path ← call .metaFiles
      paths.foldlM (fun _ path => purgeFile settings now path) ()
    else pure ()
  else pure ()

/-! ### Requests -/

/-- What a thread may ask of the cache. -/
inductive Request where
  | resolve (objectName sha256 : String)
  | invalidate (objectName sha256 : String)
  | purge
  | evict (needBytes : Int)
  | store (key : Key) (content : Bytes) (sha256 etag objectName : String)

def Request.program (settings : Settings) : Request → Caching Unit
  | .resolve objectName sha256 => do
      let _ ← resolveOrDownload settings objectName sha256
      return ()
  | .invalidate objectName sha256 => FileCache.invalidate settings objectName sha256
  | .purge => purgeExpired settings
  | .evict needBytes => evictLru needBytes none
  | .store key content sha256 etag objectName =>
      FileCache.store settings key content sha256 etag objectName

end AcojWorker.FileCache
