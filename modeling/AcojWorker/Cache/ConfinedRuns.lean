import AcojWorker.Cache.Confinement
import AcojWorker.Cache.Eviction

/-!
# Runs that stay below the root

Every file of a run belongs to a key that was asked for, and every call is about such a key or
one that an eviction or a purge found in a file name. If all of these are contained, no call
touches anything outside of the root; otherwise some run does.
-/

namespace AcojWorker.FileCache

open Python Effect Guard

-- The paths of a key are not to be computed when one is substituted.
attribute [local irreducible] FileCache.dataPath FileCache.metaPath

/-- `_temp_sibling`, with the suffix that makes the name unique. -/
def tempSibling (path : Path) (suffix : String) : Path :=
  path.dropLast ++ [path.getLastD "" ++ ".tmp." ++ suffix]

/-- What a call creates, writes, replaces, unlinks or returns. What lies outside of the root is
not part of the state: a path that is looked for counts, because it would be returned or
unlinked if it were there. The root and the directories above it are there. -/
inductive Touches (root : Path) : CacheOp → Path → Prop where
  | made {path dir : Path} (above : dir <+: path.dropLast)
      (new : ¬ resolveFrom root dir <+: root) : Touches root (.mkdirParent path) dir
  | temp {path : Path} (suffix : String) :
      Touches root (.tempSibling path) (FileCache.tempSibling path suffix)
  | replaced {temp : Nat} {path : Path} : Touches root (.replace temp path) path
  | sought {path : Path} : Touches root (.pathExists path) path
  | unlinked {path : Path} : Touches root (.unlink path) path
  | returned {key : Key} {path : Path} : Touches root (.release key (.ok (some path))) path

section Fencing

variable (keys : Set Key)

/-- The keys of the requests, and those found in their files. -/
def Known : Set Key := keys ∪ Rediscovered keys

/-- The call is about files of the keys: only keys of the requests get files. -/
def About : CacheOp → Prop
  | .mkdirParent path | .tempSibling path | .replace _ path => ∃ key ∈ keys, Owns key path
  | .pathExists path | .unlink path => ∃ key ∈ Known keys, Owns key path
  | .release _ (.ok (some path)) => ∃ key ∈ keys, path = dataPath key
  | _ => True

/-- Every file belongs to a key of the requests. -/
def Fenced (w : World) : Prop := ∀ path file, w.files path = some file → ∃ key ∈ keys, Owns key path

def fencing : Guard disk where
  inv := Fenced keys
  good op _ := About keys op
  drift_ok := by
    rintro w _ fenced ⟨clock, _, rfl⟩
    exact fenced

variable {keys}

theorem fenced_put {w : World} (fenced : Fenced keys w) {path : Path}
    (owned : ∃ key ∈ keys, Owns key path) (file : File) : Fenced keys (w.put path file) := by
  intro p f h
  by_cases same : p = path
  · exact same ▸ owned
  · exact fenced p f ((Function.update_of_ne same _ _).symm.trans h)

theorem fenced_exec {t : Nat} {op : CacheOp} {w w' : World} {r : Except Exc op.Answer}
    (about : About keys op) (fenced : Fenced keys w) (h : exec t op w r w') : Fenced keys w' := by
  cases op with
  | replace temp path =>
      rcases h with ⟨_, _, rfl⟩ | ⟨_, file, _, _, rfl⟩
      · exact fenced
      · exact fenced_put (w := w.setTemp temp none) fenced about file
  | unlink path =>
      rcases h with ⟨_, _, rfl⟩ | ⟨_, rfl⟩
      · exact fenced
      · exact fun p f hf => fenced p f (files_of_remove hf)
  | tryAcquire => rcases h with ⟨_, _, rfl⟩ | ⟨_, _, rfl⟩ <;> exact fenced
  | release => rcases h with ⟨_, _, rfl⟩ | ⟨_, _, rfl⟩ <;> exact fenced
  | download => rcases h with ⟨_, _, rfl⟩ | ⟨_, _, rfl⟩ <;> exact fenced
  | writeTemp => rcases h with ⟨_, _, _, rfl⟩ | ⟨_, rfl⟩ <;> exact fenced
  | unlinkTemp => rcases h with ⟨_, _, rfl⟩ | ⟨_, rfl⟩ <;> exact fenced
  | mkdirParent => rcases h with rfl | rfl <;> exact fenced
  | tempSibling =>
      obtain ⟨_, _, _, rfl⟩ := h
      exact fenced
  | acquire =>
      obtain ⟨_, _, rfl⟩ := h
      exact fenced
  | now | evictionTime =>
      obtain ⟨_, rfl⟩ := h
      exact fenced
  | pathExists | loadJson | metaFiles =>
      obtain ⟨rfl, _⟩ := h
      exact fenced
  | ensureRoot | rootExists | getStorage | headObject | downloadDirect =>
      obtain rfl : w' = w := h
      exact fenced

/-! ### Programs -/

theorem maintains_call {op : CacheOp} (about : About keys op) :
    (fencing keys).Maintains (call op) fun _ => True :=
  maintains_perform (fun _ _ => about) fun _ _ _ _ fenced h =>
    ⟨fenced_exec about fenced h, fun _ _ => trivial⟩

theorem maintains_loadJson (path : Path) :
    (fencing keys).Maintains (call (.loadJson path)) fun _ => ∃ key ∈ keys, Owns key path := by
  refine maintains_perform (fun _ _ => trivial) fun t w r w' fenced h => ?_
  obtain ⟨rfl, read⟩ := h
  refine ⟨fenced, ?_⟩
  rintro v rfl
  match there : w'.files path, read v rfl with
  | some file, _ => exact fenced path file there

theorem maintains_read {α β : Type} {x : Except Exc β} {f : β → Caching α} {Q : α → Prop}
    (hf : ∀ b, (fencing keys).Maintains (f b) Q) : (fencing keys).Maintains (liftM x >>= f) Q :=
  maintains_step (maintains_lift fun _ _ => trivial) hf

section Locks

variable {α : Type} {path : α → Option Path} {block : Caching α} {Q : α → Prop}
  (hblock : (fencing keys).Maintains block Q)

include hblock

theorem maintains_leaving (key : Key)
    (returned : ∀ a, Q a → ∀ p, path a = some p → ∃ key ∈ keys, p = dataPath key) :
    (fencing keys).Maintains (leaving key path block) Q := by
  refine maintains_bind (maintains_attempt hblock) fun outcome houtcome => ?_
  refine maintains_step (maintains_call ?_) fun _ => maintains_lift houtcome
  match outcome with
  | .error e => exact trivial
  | .ok a =>
      change About keys (.release key (.ok (path a)))
      match hp : path a with
      | none => exact trivial
      | some p => exact returned a (houtcome a rfl) p hp

theorem maintains_withKeyLock (key : Key)
    (returned : ∀ a, Q a → ∀ p, path a = some p → ∃ key ∈ keys, p = dataPath key) :
    (fencing keys).Maintains (withKeyLock key path block) Q :=
  maintains_step (maintains_call trivial) fun _ => maintains_leaving hblock key returned

theorem maintains_tryKeyLock (key : Key) (evicting : Option ℚ) {skipped : α} (hskipped : Q skipped) :
    (fencing keys).Maintains (tryKeyLock key evicting skipped block) Q :=
  maintains_step (maintains_call trivial) fun _ =>
    maintains_ite (fun _ => maintains_leaving hblock key fun _ _ => nofun)
      fun _ => maintains_ret hskipped

end Locks

/-! ### Files -/

theorem maintains_unlink {path : Path} (owned : ∃ key ∈ Known keys, Owns key path) :
    (fencing keys).Maintains (unlink path) fun _ => True := by
  refine maintains_tryCatch (maintains_step (maintains_call owned) fun found => ?_) fun e => ?_
  · exact maintains_ite (fun _ => maintains_call owned) fun _ => maintains_ret trivial
  · exact maintains_ite (fun _ => maintains_ret trivial) fun _ => maintains_raise e

theorem maintains_removeEntry {key : Key} (known : key ∈ Known keys) :
    (fencing keys).Maintains (removeEntry key) fun _ => True :=
  maintains_step (maintains_unlink ⟨key, known, .inl rfl⟩) fun _ =>
    maintains_unlink ⟨key, known, .inr rfl⟩

theorem maintains_readMeta (path : Path) :
    (fencing keys).Maintains (readMeta path) fun _ => True :=
  maintains_tryCatch (maintains_call trivial) fun e =>
    maintains_ite (fun _ => maintains_ret trivial) fun _ => maintains_raise e

theorem maintains_foundAt {key : Key} (mem : key ∈ keys) :
    (fencing keys).Maintains (call (.pathExists (dataPath key))) fun _ => True :=
  maintains_call ⟨key, .inl mem, .inl rfl⟩

section Meta

variable {key : Key} (mem : key ∈ keys)

include mem

theorem maintains_writeMeta (document : Value) :
    (fencing keys).Maintains (writeMeta (metaPath key) document) fun _ => True := by
  have owned : ∃ key' ∈ keys, Owns key' (metaPath key) := ⟨key, mem, .inr rfl⟩
  refine maintains_step (maintains_call owned) fun tmp => ?_
  refine maintains_tryCatch ?_ fun e => ?_
  · exact maintains_step (maintains_call owned) fun _ =>
      maintains_step (maintains_call trivial) fun _ => maintains_call owned
  · refine maintains_ite (fun _ => ?_) fun _ => maintains_raise e
    exact maintains_tryCatch (maintains_call trivial) fun e =>
      maintains_ite (fun _ => maintains_ret trivial) fun _ => maintains_raise e

theorem maintains_updateMeta (updates : List (String × Value)) :
    (fencing keys).Maintains (updateMeta (metaPath key) updates) fun _ => True := by
  refine maintains_step (maintains_readMeta _) fun document => ?_
  split
  · exact maintains_ret trivial
  · exact maintains_read fun document => maintains_writeMeta mem document

theorem maintains_touchMeta :
    (fencing keys).Maintains (touchMeta (metaPath key)) fun _ => True := by
  refine maintains_step (maintains_readMeta _) fun document => ?_
  split
  · exact maintains_ret trivial
  · refine maintains_step (maintains_call trivial) fun now => ?_
    refine maintains_read fun accessed => maintains_read fun accessed => ?_
    refine maintains_ite (fun _ => maintains_ret trivial) fun _ => ?_
    exact maintains_read fun document => maintains_writeMeta mem document

end Meta

/-! ### Eviction -/

theorem maintains_collectEntry (path : Path) {entries : List Entry}
    (found : ∀ entry ∈ entries, entry.key ∈ Rediscovered keys) :
    (fencing keys).Maintains (collectEntry entries path) fun entries =>
      ∀ entry ∈ entries, entry.key ∈ Rediscovered keys := by
  refine maintains_tryCatch (maintains_bind (maintains_loadJson path) ?_)
    fun _ => maintains_ret found
  rintro document ⟨owner, mem, owns⟩
  split
  · next key derived =>
      refine maintains_ite (fun named => ?_) fun _ => maintains_ret found
      refine maintains_read fun size => maintains_read fun accessed => maintains_ret ?_
      intro entry hentry
      rcases List.mem_append.mp hentry with hentry | hentry
      · exact found entry hentry
      · rw [List.mem_singleton.mp hentry]
        exact ⟨named, owner, mem, path, owns, derived⟩
  · exact maintains_ret found

theorem maintains_collectStats :
    (fencing keys).Maintains collectStats fun entries =>
      ∀ entry ∈ entries, entry.key ∈ Rediscovered keys := by
  refine maintains_step (maintains_call trivial) fun found => ?_
  refine maintains_ite (fun _ => ?_) fun _ => maintains_ret nofun
  refine maintains_step (maintains_call trivial) fun paths => ?_
  exact maintains_foldlM (fun _ found path _ => maintains_collectEntry path found) nofun

theorem maintains_calculateTotalSize :
    (fencing keys).Maintains calculateTotalSize fun _ => True := by
  refine maintains_step (maintains_call trivial) fun found => ?_
  refine maintains_ite (fun _ => ?_) fun _ => maintains_ret trivial
  refine maintains_step (maintains_call trivial) fun paths => ?_
  refine maintains_foldlM (fun total _ path _ => ?_) trivial
  refine maintains_tryCatch ?_ fun _ => maintains_ret trivial
  exact maintains_step (maintains_call trivial) fun document =>
    maintains_read fun size => maintains_read fun size => maintains_ret trivial

theorem maintains_evictCandidates (needBytes : Int) (now : ℚ) {candidates : List Entry}
    (found : ∀ entry ∈ candidates, entry.key ∈ Rediscovered keys) (freed : ℚ) :
    (fencing keys).Maintains (evictCandidates needBytes now freed candidates) fun _ => True := by
  induction candidates generalizing freed with
  | nil => exact maintains_ret trivial
  | cons entry candidates ih =>
      refine maintains_ite (fun _ => maintains_ret trivial) fun _ => ?_
      refine maintains_step (R := fun _ => True) ?_ fun freed =>
        ih (fun e he => found e (List.mem_cons_of_mem _ he)) freed
      refine maintains_tryKeyLock ?_ _ _ trivial
      refine maintains_step (maintains_removeEntry (.inr (found _ (List.mem_cons_self ..))))
        fun _ => ?_
      exact maintains_read fun size => maintains_ret trivial

theorem maintains_evictLru (needBytes : Int) (since : Option ℚ) :
    (fencing keys).Maintains (evictLru needBytes since) fun _ => True := by
  refine maintains_bind maintains_collectStats fun entries found => ?_
  refine maintains_step (maintains_call trivial) fun now => ?_
  refine maintains_bind (maintains_lift fun _ h => h) fun candidates h => ?_
  exact maintains_evictCandidates needBytes now
    (fun entry mem => found entry (evictionCandidates_old h entry mem).1) 0

theorem maintains_evictLruIfNeeded (settings : Settings) (newSize : Int) (since : Option ℚ) :
    (fencing keys).Maintains (evictLruIfNeeded settings newSize since) fun _ => True :=
  maintains_step maintains_calculateTotalSize fun _ =>
    maintains_ite (fun _ => maintains_ret trivial) fun _ => maintains_evictLru _ _

/-! ### Requests -/

section Request

variable (settings : Settings) {key : Key} (mem : key ∈ keys)

include mem

theorem maintains_store (content : Bytes) (digest etag objectName : String) :
    (fencing keys).Maintains (store settings key content digest etag objectName)
      fun _ => True := by
  have data : ∃ key' ∈ keys, Owns key' (dataPath key) := ⟨key, mem, .inl rfl⟩
  have document : ∃ key' ∈ keys, Owns key' (metaPath key) := ⟨key, mem, .inr rfl⟩
  refine maintains_step (maintains_withKeyLock (Q := fun _ => True) ?_ key fun _ _ => nofun)
    fun now => maintains_evictLruIfNeeded settings 0 (some now)
  refine maintains_step (maintains_call data) fun _ => ?_
  refine maintains_step (maintains_call data) fun tmpData => ?_
  refine maintains_step (maintains_call document) fun tmpMeta => ?_
  refine maintains_step (maintains_call trivial) fun now => ?_
  refine maintains_step (maintains_call trivial) fun _ => ?_
  refine maintains_step (maintains_call data) fun _ => ?_
  refine maintains_step (maintains_call trivial) fun _ => ?_
  exact maintains_step (maintains_call document) fun _ => maintains_ret trivial

theorem maintains_isFresh : (fencing keys).Maintains (isFresh key) fun _ => True := by
  refine maintains_step (maintains_foundAt mem) fun found => ?_
  refine maintains_ite (fun _ => ?_) fun _ => maintains_ret trivial
  refine maintains_step (maintains_readMeta _) fun document => ?_
  refine maintains_ite (fun _ => ?_) fun _ => maintains_ret trivial
  refine maintains_step (maintains_call trivial) fun now => ?_
  exact maintains_read fun validated => maintains_read fun validated => maintains_ret trivial

theorem maintains_hit :
    (fencing keys).Maintains (hit key) fun path => path = some (dataPath key) :=
  maintains_step (maintains_touchMeta mem) fun _ => maintains_ret rfl

theorem maintains_remoteGone (sha256 : String) :
    (fencing keys).Maintains (remoteGone sha256 key)
      fun path => ∀ p, path = some p → p = dataPath key := by
  refine maintains_step (R := fun _ => True) (maintains_ite (fun _ => maintains_foundAt mem)
    fun _ => maintains_ret trivial) fun kept => ?_
  refine maintains_ite (fun _ => maintains_mono (maintains_hit mem) ?_) fun _ => ?_
  · rintro _ rfl p ⟨⟩
    rfl
  · refine maintains_step (maintains_foundAt mem) fun found => ?_
    refine maintains_ite (fun _ => ?_) fun _ => maintains_ret nofun
    exact maintains_step (maintains_removeEntry (.inl mem)) fun _ => maintains_ret nofun

theorem maintains_isCurrent (remoteEtag : String) :
    (fencing keys).Maintains (isCurrent key remoteEtag) fun _ => True := by
  refine maintains_step (maintains_foundAt mem) fun found => ?_
  refine maintains_ite (fun _ => ?_) fun _ => maintains_ret trivial
  refine maintains_step (maintains_readMeta _) fun document => maintains_read fun same => ?_
  refine maintains_ite (fun _ => ?_) fun _ => ?_
  · refine maintains_step (maintains_call trivial) fun validated => ?_
    refine maintains_step (maintains_call trivial) fun accessed => ?_
    exact maintains_step (maintains_updateMeta mem _) fun _ => maintains_ret trivial
  · exact maintains_step (maintains_removeEntry (.inl mem)) fun _ => maintains_ret trivial

theorem maintains_resolveLocked (objectName sha256 : String) :
    (fencing keys).Maintains (resolveLocked settings objectName sha256 key)
      fun path => ∀ p, path = some p → p = dataPath key := by
  refine maintains_step (R := fun _ => True) (maintains_ite (fun _ => maintains_foundAt mem)
    fun _ => maintains_isFresh mem) fun trusted => ?_
  refine maintains_ite (fun _ => maintains_mono (maintains_hit mem) ?_) fun _ => ?_
  · rintro _ rfl p ⟨⟩
    rfl
  refine maintains_step (maintains_call trivial) fun _ => ?_
  refine maintains_step (R := fun _ => True) (maintains_tryCatch (maintains_call trivial)
    fun _ => maintains_ret trivial) fun head => ?_
  match head with
  | none => exact maintains_remoteGone mem sha256
  | some remoteEtag =>
      refine maintains_step (maintains_isCurrent mem remoteEtag) fun current => ?_
      refine maintains_ite (fun _ => maintains_ret ?_) fun _ => ?_
      · rintro p ⟨⟩
        rfl
      refine maintains_step (maintains_call trivial) fun content => maintains_read fun digest => ?_
      refine maintains_step (maintains_store settings mem content digest remoteEtag objectName)
        fun _ => maintains_ret ?_
      rintro p ⟨⟩
      rfl

end Request

theorem maintains_purgeFile (settings : Settings) (now : ℚ) (path : Path) :
    (fencing keys).Maintains (purgeFile settings now path) fun _ => True := by
  refine maintains_tryCatch (maintains_bind (maintains_loadJson path) ?_)
    fun _ => maintains_ret trivial
  rintro document ⟨owner, mem, owns⟩
  refine maintains_read fun accessed => maintains_read fun accessed => ?_
  refine maintains_ite (fun _ => ?_) fun _ => maintains_ret trivial
  split
  · next key derived =>
      refine maintains_ite (fun named => ?_) fun _ => maintains_ret trivial
      exact maintains_tryKeyLock (maintains_removeEntry
        (.inr ⟨named, owner, mem, path, owns, derived⟩)) _ _ trivial
  · exact maintains_ret trivial

theorem maintains_purgeExpired (settings : Settings) :
    (fencing keys).Maintains (purgeExpired settings) fun _ => True := by
  refine maintains_ite (fun _ => ?_) fun _ => maintains_ret trivial
  refine maintains_step (maintains_call trivial) fun _ => ?_
  refine maintains_step (maintains_call trivial) fun found => ?_
  refine maintains_ite (fun _ => ?_) fun _ => maintains_ret trivial
  refine maintains_step (maintains_call trivial) fun now => ?_
  refine maintains_step (maintains_call trivial) fun paths => ?_
  exact maintains_foldlM (fun _ _ path _ => maintains_purgeFile settings now path) trivial

/-- A request about one of the keys, or about the whole cache. -/
def Request.Names (keys : Set Key) : Request → Prop
  | .resolve objectName sha256 | .invalidate objectName sha256 =>
      cacheKey sha256 objectName ∈ keys
  | .store key .. => key ∈ keys
  | .purge | .evict _ => True

theorem maintains_request (settings : Settings) {r : Request} (names : r.Names keys) :
    (fencing keys).Maintains (r.program settings) fun _ => True := by
  cases r with
  | resolve objectName sha256 =>
      refine maintains_step (R := fun _ => True) (maintains_ite (fun _ => ?_) fun _ =>
        maintains_call trivial) fun _ => maintains_ret trivial
      refine maintains_step (maintains_call trivial) fun _ => ?_
      refine maintains_mono (maintains_withKeyLock
        (maintains_resolveLocked settings names objectName sha256) _ ?_) fun _ _ => trivial
      exact fun path only p hp => ⟨_, names, only p hp⟩
  | invalidate objectName sha256 =>
      refine maintains_ite (fun _ => ?_) fun _ => maintains_ret trivial
      exact maintains_withKeyLock (maintains_removeEntry (.inl names)) _ fun _ _ => nofun
  | purge => exact maintains_purgeExpired settings
  | evict needBytes => exact maintains_evictLru needBytes none
  | store key content sha256 etag objectName =>
      exact maintains_store settings names content sha256 etag objectName

end Fencing

/-! ### Runs -/

/-- The pools of the runs with requests about some keys. -/
def Runs (settings : Settings) (keys : Set Key) (clock : ℚ) (c : Pool CacheCalls Exc World) :
    Prop :=
  Pool.Reachable disk (fun p => ∃ r : Request, r.Names keys ∧ p = r.program settings)
    (fun _ _ _ => True) (World.start clock) c

/-- In no run is anything touched outside of the root, wherever the root is. -/
def StaysBelow (settings : Settings) (keys : Set Key) : Prop :=
  ∀ clock c, Runs settings keys clock c → ∀ t op next, c.threads t = some (.call op next) →
    ∀ root path, Touches root op path → StrictlyBelow root (resolveFrom root path)

theorem fenced_of_runs {settings : Settings} {keys : Set Key} {clock : ℚ}
    {c : Pool CacheCalls Exc World} (run : Runs settings keys clock c) : Fenced keys c.state := by
  refine (reachable (g := fencing keys) ?_ ?_ run).1
  · rintro _ ⟨r, names, rfl⟩
    exact maintains_request settings names
  · exact nofun

theorem about_of_runs {settings : Settings} {keys : Set Key} {clock : ℚ}
    {c : Pool CacheCalls Exc World} (run : Runs settings keys clock c) {t : Nat} {op : CacheOp}
    {next : Except Exc op.Answer → Caching Unit} (at_call : c.threads t = some (.call op next)) :
    About keys op := by
  refine (reachable (g := fencing keys) ?_ ?_ run).2 t op next at_call
  · rintro _ ⟨r, names, rfl⟩
    exact maintains_request settings names
  · exact nofun

theorem below_of_touches {keys : Set Key} (inside : ∀ key ∈ Known keys, Inside (dataPath key))
    {op : CacheOp} (about : About keys op) {root path : Path} (touches : Touches root op path) :
    StrictlyBelow root (resolveFrom root path) := by
  have owned : ∀ path, (∃ key ∈ Known keys, Owns key path) → Inside path := by
    rintro path ⟨key, known, owns⟩
    exact inside_of_owns (inside key known) owns
  have asked : ∀ path, (∃ key ∈ keys, Owns key path) → Inside path := by
    rintro path ⟨key, mem, owns⟩
    exact owned path ⟨key, .inl mem, owns⟩
  cases touches with
  | made above new =>
      have rooted := rooted_above (asked _ about).rooted (List.dropLast_prefix _)
      exact below_of_rooted (rooted_above rooted above) new
  | temp suffix =>
      have rooted := rooted_above (asked _ about).rooted (List.dropLast_prefix _)
      refine below_of_inside (inside_concat rooted fun up => ?_) root
      have long := congrArg String.length up
      rw [String.length_append, String.length_append] at long
      have few : ".tmp.".length ≤ "..".length := long ▸ Nat.le_add_right_of_le (Nat.le_add_left ..)
      exact absurd few (by decide)
  | replaced => exact below_of_inside (asked _ about) root
  | sought => exact below_of_inside (owned _ about) root
  | unlinked => exact below_of_inside (owned _ about) root
  | returned =>
      obtain ⟨key, mem, rfl⟩ := about
      exact below_of_inside (inside key (.inl mem)) root

/-! ### Runs that leave the root -/

section Escapes

variable {settings : Settings} {keys : Set Key} {key key' : Key}

/-- A store on its way. -/
def storing (key : Key) : Request := .store key [] "" "" ""

theorem leads_dataPath (settings : Settings) (key : Key) : ∃ next w,
    Pool.Leads disk 0 ((storing key).program settings) (World.start 0)
      (.call (.replace 0 (dataPath key)) next) w :=
  ⟨_, _, .call (r := .ok ()) ⟨rfl, rfl, rfl⟩ <| .call (r := .ok ()) (.inl rfl) <|
    .call (r := .ok (0 : Nat)) ⟨0, rfl, rfl, rfl⟩ <| .call (r := .ok (1 : Nat)) ⟨1, rfl, rfl, rfl⟩ <|
    .call (r := .ok (0 : ℚ)) ⟨rfl, rfl⟩ <| .call (r := .ok ()) (.inr ⟨rfl, rfl⟩) .here⟩

theorem put_self {w : World} {path : Path} {file : File} :
    (w.put path file).files path = some file :=
  Function.update_self ..

/-- A document that was accessed at the beginning of time. -/
structure Stale (document : Value) : Prop where
  size : ∃ size, document.get "size_bytes" (.int 0) = .ok size
  accessed : ∃ accessed, document.get "last_accessed_at" (.int 0) = .ok accessed ∧
    accessed.number = .ok 0

/-- Both files of a key are there some time, while its lock is held. -/
theorem leads_owned (settings : Settings) {path : Path} (owns : Owns key path) :
    ∃ q w document, Pool.Leads disk 0 ((storing key).program settings) (World.start 0) q w ∧
      w.clock = 0 ∧ (∀ key' ≠ key, w.locks key' = none) ∧ Reads (w.files path) document ∧
      Stale document := by
  rcases owns with rfl | rfl
  · refine ⟨_, _, .dict [], .call (r := .ok ()) ⟨rfl, rfl, rfl⟩ <| .call (r := .ok ()) (.inl rfl) <|
      .call (r := .ok (0 : Nat)) ⟨0, rfl, rfl, rfl⟩ <| .call (r := .ok (1 : Nat)) ⟨1, rfl, rfl, rfl⟩ <|
      .call (r := .ok (0 : ℚ)) ⟨rfl, rfl⟩ <| .call (r := .ok ()) (.inr ⟨rfl, rfl⟩) <|
      .call (r := .ok ()) (.inr ⟨0, _, rfl, rfl, rfl⟩) .here, rfl, ?_, ?_, ?_⟩
    · exact fun key' other => Function.update_of_ne other ..
    · rw [put_self]
      exact trivial
    · exact ⟨⟨_, rfl⟩, _, rfl, rfl⟩
  · refine ⟨_, _, storedMeta [] "" "" "" 0, .call (r := .ok ()) ⟨rfl, rfl, rfl⟩ <|
      .call (r := .ok ()) (.inl rfl) <|
      .call (r := .ok (0 : Nat)) ⟨0, rfl, rfl, rfl⟩ <| .call (r := .ok (1 : Nat)) ⟨1, rfl, rfl, rfl⟩ <|
      .call (r := .ok (0 : ℚ)) ⟨rfl, rfl⟩ <| .call (r := .ok ()) (.inr ⟨rfl, rfl⟩) <|
      .call (r := .ok ()) (.inr ⟨0, _, rfl, rfl, rfl⟩) <| .call (r := .ok ()) (.inr ⟨rfl, rfl⟩) <|
      .call (r := .ok ()) (.inr ⟨0, _, rfl, rfl, rfl⟩) .here, rfl, ?_, ?_, ?_⟩
    · exact fun key' other => Function.update_of_ne other ..
    · rw [put_self]
      exact rfl
    · exact ⟨⟨_, rfl⟩, _, rfl, rfl⟩

theorem leads_collectEntry {t : Nat} {path : Path} {w : World} {document size accessed : Value}
    (named : key' ≠ "") (derived : keyFromMetaPath path = some key')
    (read : Reads (w.files path) document) (hsize : document.get "size_bytes" (.int 0) = .ok size)
    (haccessed : document.get "last_accessed_at" (.int 0) = .ok accessed)
    (k : List Entry → Caching Unit) :
    Pool.Leads disk t (collectEntry [] path >>= k) w (k [⟨key', size, accessed⟩]) w := by
  have collected : collectEntry [] path = Program.tryCatch
      (call (.loadJson path) >>= fun document : Value =>
        liftM (document.get "size_bytes" (.int 0)) >>= fun size =>
          liftM (document.get "last_accessed_at" (.int 0)) >>= fun accessed =>
            pure [⟨key', size, accessed⟩])
      (fun _ => pure []) := by
    simp only [collectEntry, derived, ne_eq, named, not_false_eq_true, if_true, List.nil_append]
  rw [collected]
  refine .call (r := .ok document) ⟨rfl, ?_⟩ ?_
  · rintro _ ⟨⟩
    exact read
  · change Pool.Leads disk t (Program.tryCatch
      (liftM (document.get "size_bytes" (.int 0)) >>= fun size =>
        liftM (document.get "last_accessed_at" (.int 0)) >>= fun accessed =>
          pure [⟨key', size, accessed⟩]) (fun _ => pure []) >>= k) w _ w
    rw [hsize, haccessed]
    exact .here

/-- An eviction looks for the data file of a key it has found. -/
theorem leads_evict (settings : Settings) {path : Path} {w : World} {document : Value} (named : key' ≠ "")
    (derived : keyFromMetaPath path = some key') (free : w.locks key' = none)
    (read : Reads (w.files path) document) (stale : Stale document) (late : w.clock = 61) :
    ∃ next w', Pool.Leads disk 1 ((Request.evict 1).program settings) w
      (.call (.pathExists (dataPath key')) next) w' := by
  obtain ⟨size, hsize⟩ := stale.size
  obtain ⟨accessed, haccessed, hnumber⟩ := stale.accessed
  have candidates : evictionCandidates 61 [⟨key', size, accessed⟩] =
      .ok [⟨key', size, accessed⟩] := by
    have late : lruGracePeriod < 61 - 0 := by norm_num [lruGracePeriod]
    simp only [evictionCandidates, List.mapM_cons, List.mapM_nil, hnumber]
    change Except.ok (List.map Prod.snd (List.insertionSort _ (List.filter _ [(0, _)]))) = _
    rw [List.filter_cons_of_pos (by simpa using late)]
    rfl
  have listed : isMetaFile path = true := by
    rw [isMetaFile, keyFromMetaPath_eq_some.mp derived]
    change metaSuffix.toList.isSuffixOf (key' ++ metaSuffix).toList = true
    rw [String.toList_append]
    exact List.isSuffixOf_iff_suffix.mpr (List.suffix_append ..)
  obtain ⟨next, w', rest⟩ : ∃ next w', Pool.Leads disk 1 (evictCandidates 1 61 0
      [⟨key', size, accessed⟩]) { w with before := Function.update w.before 1 w.returned }
      (.call (.pathExists (dataPath key')) next) w' := by
    have unfreed : ¬ ((1 : Int) : ℚ) ≤ 0 := by norm_num
    rw [evictCandidates, if_neg unfreed]
    refine ⟨_, _, .call (r := .ok true) (.inl ⟨?_, rfl, rfl⟩) .here⟩
    simp [World.free, free]
  refine ⟨next, w', .call (r := .ok true) rfl <| .call (r := .ok [path]) ⟨rfl, ?_⟩ ?_⟩
  · rintro _ ⟨⟩ p hp
    exact List.mem_singleton.mp hp ▸ listed
  change Pool.Leads disk 1 ((collectEntry [] path >>= fun entries => pure entries) >>=
    fun entries => call (.evictionTime entries none) >>= fun now : ℚ =>
      liftM (evictionCandidates now entries) >>= fun candidates =>
        evictCandidates 1 now 0 candidates) w _ w'
  rw [bind_pure]
  refine (leads_collectEntry named derived read hsize haccessed _).trans ?_
  refine .call (r := .ok (61 : ℚ)) ⟨congrArg Except.ok late.symm, rfl⟩ ?_
  change Pool.Leads disk 1 (liftM (evictionCandidates 61 [⟨key', size, accessed⟩]) >>=
    fun candidates => evictCandidates 1 61 0 candidates) _ _ w'
  rw [candidates]
  exact rest

theorem runs_start (settings : Settings) (mem : key ∈ keys) {q : Caching Unit} {w : World}
    (leads : Pool.Leads disk 0 ((storing key).program settings) (World.start 0) q w) :
    ∃ c, Runs settings keys 0 c ∧ c.threads 0 = some q ∧ c.state = w ∧ c.threads 1 = none := by
  have idle : Runs settings keys 0 ⟨fun _ => none, World.start 0⟩ := .refl
  obtain ⟨c, run, at_call, state, others⟩ := reachable_leads idle rfl
    ⟨storing key, mem, rfl⟩ leads
  exact ⟨c, run, at_call, state, others 1 (by decide)⟩

theorem inside_of_staysBelow (stays : StaysBelow settings keys) (mem : key ∈ keys) :
    Inside (dataPath key) := by
  obtain ⟨next, w, leads⟩ := leads_dataPath settings key
  obtain ⟨c, run, at_call, _⟩ := runs_start settings mem leads
  exact inside_of_below fun root => stays 0 c run 0 _ _ at_call root _ .replaced

theorem inside_of_rediscovered (stays : StaysBelow settings keys) (mem : key ∈ keys)
    (found : key' ∈ Rediscovered {key}) : Inside (dataPath key') := by
  obtain ⟨named, key, rfl, path, owns, derived⟩ := found
  by_cases other : key' = key
  · exact other ▸ inside_of_staysBelow stays mem
  obtain ⟨q, w, document, leads, clock, unlocked, read, stale⟩ := leads_owned settings owns
  obtain ⟨⟨threads, w⟩, run, _, rfl, idle⟩ := runs_start settings mem leads
  have later : Runs settings keys 0 ⟨threads, { w with clock := 61 }⟩ :=
    run.tail (.drift ⟨61, by rw [clock]; norm_num, rfl⟩)
  obtain ⟨next, w', evicts⟩ := leads_evict settings (w := { w with clock := 61 })
    named derived (unlocked key' other) read stale rfl
  obtain ⟨c, meets, at_call, _⟩ := reachable_leads later idle ⟨.evict 1, trivial, rfl⟩ evicts
  exact inside_of_below fun root => stays 0 c meets 1 _ _ at_call root _ .sought

end Escapes

theorem rediscovered_of_mem {keys : Set Key} {key' : Key} (found : key' ∈ Rediscovered keys) :
    ∃ key ∈ keys, key' ∈ Rediscovered {key} := by
  obtain ⟨named, key, mem, path, owns, derived⟩ := found
  exact ⟨key, mem, named, key, rfl, path, owns, derived⟩

/-- The keys of some objects, each given by a hash or none and its name. -/
def objectKeys (objects : Set (String × String)) : Set Key :=
  {key | ∃ o ∈ objects, key = cacheKey o.1 o.2}

/-- Exactly the requests for objects with contained keys leave everything outside of the root
alone, whatever threads make them. -/
theorem staysBelow_iff (settings : Settings) (objects : Set (String × String)) :
    StaysBelow settings (objectKeys objects) ↔ ∀ o ∈ objects, Contained (cacheKey o.1 o.2) := by
  have condition (o : String × String) :=
    contained_iff (sharded_cacheKey o.1 o.2) (keyPrefix_cacheKey o.1 o.2)
  constructor
  · intro stays o ho
    have mem : cacheKey o.1 o.2 ∈ objectKeys objects := ⟨o, ho, rfl⟩
    exact (condition o).mpr ⟨inside_of_staysBelow stays mem, fun key' found =>
      inside_of_rediscovered stays mem found⟩
  · intro contained clock c run t op next at_call root path touches
    have about : About (objectKeys objects) op := about_of_runs run at_call
    refine below_of_touches ?_ about touches
    rintro key (⟨o, ho, rfl⟩ | found)
    · exact ((condition o).mp (contained o ho)).1
    · obtain ⟨_, ⟨o, ho, rfl⟩, found⟩ := rediscovered_of_mem found
      exact ((condition o).mp (contained o ho)).2 key found

/-- A name that climbs out of the root takes its file along. -/
theorem escapes_root : ∃ c next, Runs ⟨true, 1, 1, fun _ => ""⟩
      (objectKeys {("", "x/../../../y")}) 0 c ∧
    c.threads 0 = some (.call (.replace 0 ["na", "name:x", "..", "..", "..", "y"]) next) ∧
    resolveFrom ["srv", "cache"] ["na", "name:x", "..", "..", "..", "y"] = ["srv", "y"] ∧
    ¬ StrictlyBelow ["srv", "cache"] ["srv", "y"] := by
  obtain ⟨next, w, leads⟩ := leads_dataPath ⟨true, 1, 1, fun _ => ""⟩ (cacheKey "" "x/../../../y")
  have place : dataPath (cacheKey "" "x/../../../y") = ["na", "name:x", "..", "..", "..", "y"] := by
    decide +kernel
  rw [place] at leads
  have mem : cacheKey "" "x/../../../y" ∈ objectKeys {("", "x/../../../y")} := ⟨_, rfl, rfl⟩
  obtain ⟨c, run, at_call, _⟩ := runs_start ⟨true, 1, 1, fun _ => ""⟩ mem leads
  refine ⟨c, next, run, at_call, by decide +kernel, ?_⟩
  rintro ⟨below, _⟩
  exact absurd below (by decide)

end AcojWorker.FileCache
