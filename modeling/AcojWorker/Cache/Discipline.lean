import AcojWorker.Cache.FileCache

/-!
# The locking discipline of the cache

The files of a hash key change under its lock only, and its data file holds a content of
that hash. A thread that holds the lock of a hash key therefore knows its files, whatever the
other threads do, provided that no other key shares them.
-/

namespace AcojWorker.FileCache

open Python Effect

/-- The key of a content that is addressed by its hash. -/
def hashKey (h : String) : Key := "sha256:" ++ h

theorem cacheKey_of_hash {h : String} (declared : h ≠ "") (objectName : String) :
    cacheKey h objectName = hashKey h := if_pos declared

theorem hashKey_injective {h h' : String} (same : hashKey h = hashKey h') : h = h' := by
  have chars := congrArg String.toList same
  exact String.toList_inj.mp (by simpa [hashKey] using chars)

theorem cacheKey_eq_hashKey {sha256 objectName h : String}
    (same : cacheKey sha256 objectName = hashKey h) : sha256 = h ∧ sha256 ≠ "" := by
  rw [cacheKey] at same
  split at same
  · next declared => exact ⟨hashKey_injective same, declared⟩
  · have chars := congrArg String.toList same
    simp [hashKey] at chars

/-- The data file or the meta file of a key. -/
def Owns (key : Key) (path : Path) : Prop := path = dataPath key ∨ path = metaPath key

/-- Distinct cache keys are distinct files: the two files of a hash key are two, they belong to
no other key, and no file of a key lies below them. -/
structure DistinctFiles (keys : Set Key) : Prop where
  apart : ∀ h, hashKey h ∈ keys → dataPath (hashKey h) ≠ metaPath (hashKey h)
  separate : ∀ h, hashKey h ∈ keys → ∀ key ∈ keys, ∀ path, Owns (hashKey h) path → Owns key path →
    key = hashKey h
  nested : ∀ h, hashKey h ∈ keys → ∀ key ∈ keys, ∀ path path', Owns (hashKey h) path →
    Owns key path' → path <+: path' → path' = path

/-- The keys of a run: those of its requests, and those an eviction derives from meta files. -/
structure Keys where
  keys : Set Key
  distinct : DistinctFiles keys
  derived : ∀ key ∈ keys, ∀ path, Owns key path → ∀ key', keyFromMetaPath path = some key' →
    key' ≠ "" → key' ∈ keys

/-- No file but the meta file of a hash key stands for that key. -/
def Keys.Unaliased (K : Keys) : Prop :=
  ∀ key ∈ K.keys, ∀ path, Owns key path → ∀ h, keyFromMetaPath path = some (hashKey h) →
    path = metaPath (hashKey h)

/-! ### Finite sets of keys -/

/-- Whether a key is that of a hash. -/
def IsHash (key : Key) : Prop := "sha256:".toList <+: key.toList

instance (key : Key) : Decidable (IsHash key) := inferInstanceAs (Decidable (_ <+: _))

theorem isHash_hashKey (h : String) : IsHash (hashKey h) := by
  rw [IsHash, hashKey, String.toList_append]
  exact List.prefix_append ..

def ownedPaths (key : Key) : List Path := [dataPath key, metaPath key]

theorem mem_ownedPaths {key : Key} {path : Path} : path ∈ ownedPaths key ↔ Owns key path := by
  simp [ownedPaths, Owns]

/-- What is asked of one key among others. -/
structure Checks (keys : List Key) (key : Key) : Prop where
  apart : IsHash key → dataPath key ≠ metaPath key
  shared : IsHash key → ∀ key' ∈ keys, ∀ path ∈ ownedPaths key, ∀ path' ∈ ownedPaths key',
    path <+: path' → path' = path ∧ key' = key
  derived : ∀ path ∈ ownedPaths key, ∀ key' ∈ keyFromMetaPath path, key' ≠ "" → key' ∈ keys

instance (keys : List Key) (key : Key) : Decidable (Checks keys key) :=
  decidable_of_iff
    ((IsHash key → dataPath key ≠ metaPath key) ∧
      (IsHash key → ∀ key' ∈ keys, ∀ path ∈ ownedPaths key, ∀ path' ∈ ownedPaths key',
        path <+: path' → path' = path ∧ key' = key) ∧
      ∀ path ∈ ownedPaths key, ∀ key' ∈ keyFromMetaPath path, key' ≠ "" → key' ∈ keys)
    ⟨fun ⟨a, b, c⟩ => ⟨a, b, c⟩, fun ⟨a, b, c⟩ => ⟨a, b, c⟩⟩

/-- The keys of a run, if there are finitely many. -/
def Keys.ofList (keys : List Key) (checked : ∀ key ∈ keys, Checks keys key) : Keys where
  keys := {key | key ∈ keys}
  distinct := by
    refine ⟨fun h mem => (checked _ mem).apart (isHash_hashKey h), ?_, ?_⟩
    · intro h mem key keyMem path owns owns'
      exact ((checked _ mem).shared (isHash_hashKey h) key keyMem path (mem_ownedPaths.mpr owns) path
        (mem_ownedPaths.mpr owns') (List.prefix_refl path)).2
    · intro h mem key keyMem path path' owns owns' below
      exact ((checked _ mem).shared (isHash_hashKey h) key keyMem path (mem_ownedPaths.mpr owns) path'
        (mem_ownedPaths.mpr owns') below).1
  derived key mem path owns := (checked key mem).derived path (mem_ownedPaths.mpr owns)

theorem unaliased_ofList {keys : List Key} {checked : ∀ key ∈ keys, Checks keys key}
    (own : ∀ key ∈ keys, ∀ path ∈ ownedPaths key, ∀ key' ∈ keyFromMetaPath path,
      IsHash key' → path = metaPath key') : (Keys.ofList keys checked).Unaliased :=
  fun key mem path owns h derived =>
    own key mem path (mem_ownedPaths.mpr owns) _ derived (isHash_hashKey h)

section Discipline

variable (K : Keys) (sha256 : Bytes → String)

/-- Every data file of a hash key has that hash, and files and directories are those of the
keys of the run. -/
structure Intact (w : World) : Prop where
  hashed : ∀ h, hashKey h ∈ K.keys → ∀ file, w.files (dataPath (hashKey h)) = some file →
    ∃ content, file = .data content ∧ sha256 content = h
  owned : ∀ path file, w.files path = some file → ∃ key ∈ K.keys, Owns key path
  dirs : ∀ path ∈ w.dirs, ∃ key ∈ K.keys, Owns key path

/-- What other threads leave alone: the locks of a thread, the files of the hash keys it has
locked, its temporary files and what is remembered of it. -/
structure LeftAlone (t : Nat) (w w' : World) : Prop where
  depth : ∀ key, w'.depth t key = w.depth t key
  files : ∀ h, hashKey h ∈ K.keys → 0 < w.depth t (hashKey h) → ∀ path, Owns (hashKey h) path →
    w'.files path = w.files path
  temps : ∀ temp x, w.temps temp = some (t, x) → w'.temps temp = some (t, x)
  fetched : w'.fetched t = w.fetched t

/-- A thread between two requests holds no lock. -/
structure Resting (t : Nat) (w : World) : Prop where
  depth : ∀ key, w.depth t key = 0
  fetched : w.fetched t = none

/-- Less than the grace period passes within one store. -/
def TimelyStore : CacheOp → World → Prop
  | .evictionTime _ (some since), w => w.clock < since + lruGracePeriod
  | _, _ => True

/-- A block under the lock of a hash key returns a path to a content of that hash; after a
download of another content it raises, and nothing is stored for the key. -/
def Verified (sha256 : Bytes → String) (t : Nat) : CacheOp → World → Prop
  | .release key outcome, w => ∀ h, key = hashKey h →
      (∀ path, outcome = .ok (some path) →
        ∃ content, w.files path = some (.data content) ∧ sha256 content = h) ∧
      ∀ content, w.fetched t = some content → sha256 content ≠ h →
        (∃ e, outcome = .error e) ∧ w.files (dataPath key) = none
  | _, _ => True

/-- The discipline under which the contents of the cache stay what their keys say. -/
def locking : Discipline disk where
  inv := Intact K sha256
  rely := LeftAlone K
  idle := Resting
  allowed _ := TimelyStore
  good := Verified sha256
  rely_refl _ _ := ⟨fun _ => rfl, fun _ _ _ _ _ => rfl, fun _ _ h => h, rfl⟩
  rely_trans := by
    intro t w w' w'' first second
    refine ⟨fun key => (second.depth key).trans (first.depth key), ?_, ?_,
      second.fetched.trans first.fetched⟩
    · intro h mem held path owns
      rw [second.files h mem (by rw [first.depth]; exact held) path owns]
      exact first.files h mem held path owns
    · exact fun temp x hx => second.temps temp x (first.temps temp x hx)
  idle_stable := by
    intro t w w' resting rely
    exact ⟨fun key => (rely.depth key).trans (resting.depth key),
      rely.fetched.trans resting.fetched⟩
  drift_ok := by
    rintro w _ intact ⟨clock, _, rfl⟩
    exact ⟨⟨intact.hashed, intact.owned, intact.dirs⟩,
      fun t => ⟨fun _ => rfl, fun _ _ _ _ _ => rfl, fun _ _ h => h, rfl⟩⟩

end Discipline

/-! ### What calls leave alone -/

section Calls

variable {K : Keys} {sha256 : Bytes → String} {t u : Nat} {w : World} {key : Key}

/-- A thread that may change a file: no other thread has it locked. -/
def MayChange (K : Keys) (t : Nat) (w : World) (path : Path) : Prop :=
  ∀ h, hashKey h ∈ K.keys → Owns (hashKey h) path → 0 < w.depth t (hashKey h)

theorem mayChange_of_depth (mem : key ∈ K.keys) (held : 0 < w.depth t key) {path : Path}
    (owns : Owns key path) : MayChange K t w path := by
  intro h hmem howns
  rw [← K.distinct.separate h hmem key mem path howns owns]
  exact held

theorem timesHeld_exclusive {lock : Option (Nat × Nat)} (held : 0 < timesHeld t lock)
    (other : u ≠ t) : timesHeld u lock = 0 := by
  match lock with
  | none => rfl
  | some (owner, n) =>
      simp only [timesHeld] at held ⊢
      split at held
      · next here => rw [if_neg (here ▸ other.symm)]
      · exact absurd held (lt_irrefl 0)

/-- Two threads never hold one lock. -/
theorem depth_exclusive (held : 0 < w.depth t key) (other : u ≠ t) : w.depth u key = 0 :=
  timesHeld_exclusive held other

theorem depth_free (free : w.free t key = true) (other : u ≠ t) : w.depth u key = 0 := by
  rw [World.free] at free
  rw [World.depth]
  match hl : w.locks key with
  | none => rfl
  | some (owner, n) =>
      simp only [hl, decide_eq_true_eq] at free
      simp [timesHeld, free, other.symm]

theorem depth_lock (k : Key) :
    (w.lock t key).depth t k = if k = key then w.depth t key + 1 else w.depth t k := by
  by_cases same : k = key
  · subst same
    simp [World.depth, World.lock, timesHeld]
  · simp [World.depth, World.lock, same]

theorem depth_lock_other (free : w.free t key = true) (other : u ≠ t) (k : Key) :
    (w.lock t key).depth u k = w.depth u k := by
  by_cases same : k = key
  · subst same
    rw [depth_free free other]
    simp [World.depth, World.lock, timesHeld, other.symm]
  · simp [World.depth, World.lock, same]

theorem depth_release_self (outcome : Except Exc (Option Path)) :
    (w.release t key outcome).depth u key =
      timesHeld u (if w.depth t key ≤ 1 then none else some (t, w.depth t key - 1)) :=
  congrArg (timesHeld u) (Function.update_self ..)

theorem depth_release (held : 0 < w.depth t key) (outcome : Except Exc (Option Path)) (k : Key) :
    (w.release t key outcome).depth t k =
      if k = key then w.depth t key - 1 else w.depth t k := by
  by_cases same : k = key
  · subst same
    rw [depth_release_self, if_pos rfl]
    by_cases last : w.depth t k ≤ 1
    · rw [if_pos last, timesHeld]
      omega
    · rw [if_neg last, timesHeld, if_pos rfl]
  · simp [World.depth, World.release, same]

theorem depth_release_other (held : 0 < w.depth t key) (outcome : Except Exc (Option Path))
    (other : u ≠ t) (k : Key) : (w.release t key outcome).depth u k = w.depth u k := by
  by_cases same : k = key
  · subst same
    rw [depth_exclusive held other, depth_release_self]
    by_cases last : w.depth t k ≤ 1
    · rw [if_pos last, timesHeld]
    · rw [if_neg last, timesHeld, if_neg other.symm]
  · simp [World.depth, World.release, same]

/-- Every file that is left after a removal was there before. -/
theorem files_of_remove {path p : Path} {file : File}
    (left : (w.remove path).files p = some file) : w.files p = some file := by
  by_cases same : p = path
  · simp [World.remove, same] at left
  · simpa only [World.remove, Function.update_of_ne same] using left

variable (intact : Intact K sha256 w)

include intact

theorem keeps_same : (locking K sha256).Keeps t w w :=
  ⟨intact, fun u _ => (locking K sha256).rely_refl u w⟩

theorem keeps_lock (free : w.free t key = true) : (locking K sha256).Keeps t w (w.lock t key) :=
  ⟨⟨intact.hashed, intact.owned, intact.dirs⟩, fun _ other =>
    ⟨depth_lock_other free other, fun _ _ _ _ _ => rfl, fun _ _ h => h, rfl⟩⟩

theorem keeps_release (held : 0 < w.depth t key) (outcome : Except Exc (Option Path)) :
    (locking K sha256).Keeps t w (w.release t key outcome) :=
  ⟨⟨intact.hashed, intact.owned, intact.dirs⟩, fun _ other =>
    ⟨depth_release_other held outcome other, fun _ _ _ _ _ => rfl, fun _ _ h => h,
      Function.update_of_ne other _ _⟩⟩

theorem keeps_fetched (content : Option Bytes) :
    (locking K sha256).Keeps t w { w with fetched := Function.update w.fetched t content } :=
  ⟨⟨intact.hashed, intact.owned, intact.dirs⟩, fun _ other =>
    ⟨fun _ => rfl, fun _ _ _ _ _ => rfl, fun _ _ h => h, Function.update_of_ne other _ _⟩⟩

theorem keeps_before (returned : List (Key × ℚ)) :
    (locking K sha256).Keeps t w { w with before := Function.update w.before t returned } :=
  ⟨⟨intact.hashed, intact.owned, intact.dirs⟩, fun _ _ =>
    ⟨fun _ => rfl, fun _ _ _ _ _ => rfl, fun _ _ h => h, rfl⟩⟩

/-- A temporary file that is new, or the thread's own. -/
theorem keeps_setTemp {temp : Nat} {x : Option (Nat × Option File)}
    (own : ∀ u y, w.temps temp = some (u, y) → u = t) :
    (locking K sha256).Keeps t w (w.setTemp temp x) := by
  refine ⟨⟨intact.hashed, intact.owned, intact.dirs⟩, fun u other =>
    ⟨fun _ => rfl, fun _ _ _ _ _ => rfl, fun i y hy => ?_, rfl⟩⟩
  have apart : i ≠ temp := by
    rintro rfl
    exact other (own u y hy)
  exact (Function.update_of_ne apart _ _).trans hy

theorem keeps_remove {path : Path} (may : MayChange K t w path) :
    (locking K sha256).Keeps t w (w.remove path) := by
  refine ⟨⟨fun h mem file left => intact.hashed h mem file (files_of_remove left),
    fun p file left => intact.owned p file (files_of_remove left), intact.dirs⟩, fun u other =>
    ⟨fun _ => rfl, fun h mem held p owns => ?_, fun _ _ h => h, rfl⟩⟩
  · have apart : p ≠ path := by
      rintro rfl
      have none := depth_exclusive (may h mem owns) other
      rw [none] at held
      exact absurd held (lt_irrefl 0)
    exact Function.update_of_ne apart _ _

theorem keeps_makeDirs {path : Path} (mem : ∃ key ∈ K.keys, Owns key path) :
    (locking K sha256).Keeps t w (w.makeDirs path) := by
  refine ⟨⟨intact.hashed, intact.owned, fun p hp => ?_⟩, fun u other =>
    ⟨fun _ => rfl, fun _ _ _ _ _ => rfl, fun _ _ h => h, rfl⟩⟩
  rcases List.mem_cons.mp hp with rfl | hp
  · exact mem
  · exact intact.dirs p hp

/-- A file of a hash key is no directory. -/
theorem not_isDir {h : String} (mem : hashKey h ∈ K.keys) {path : Path}
    (owns : Owns (hashKey h) path) : ¬ w.IsDir path := by
  rintro ⟨file, hfile, below, apart⟩
  obtain ⟨key, keyMem, keyOwns⟩ := intact.dirs file hfile
  exact apart (K.distinct.nested h mem key keyMem path file owns keyOwns below).symm

theorem keeps_put {path : Path} {file : File} (may : MayChange K t w path)
    (mem : ∃ key ∈ K.keys, Owns key path)
    (hashed : ∀ h, hashKey h ∈ K.keys → path = dataPath (hashKey h) →
      ∃ content, file = .data content ∧ sha256 content = h) :
    (locking K sha256).Keeps t w (w.put path file) := by
  refine ⟨⟨fun h hmem f hf => ?_, fun p f hf => ?_, intact.dirs⟩, fun u other =>
    ⟨fun _ => rfl, fun h hmem held p owns => ?_, fun _ _ h => h, rfl⟩⟩
  · by_cases same : dataPath (hashKey h) = path
    · simp only [World.put, same, Function.update_self, Option.some.injEq] at hf
      subst hf
      exact hashed h hmem same.symm
    · simp only [World.put, Function.update_of_ne same] at hf
      exact intact.hashed h hmem f hf
  · by_cases same : p = path
    · exact same ▸ mem
    · simp only [World.put, Function.update_of_ne same] at hf
      exact intact.owned p f hf
  · have apart : p ≠ path := by
      rintro rfl
      have none := depth_exclusive (may h hmem owns) other
      rw [none] at held
      exact absurd held (lt_irrefl 0)
    exact Function.update_of_ne apart _ _

end Calls

end AcojWorker.FileCache
