import AcojWorker.Cache.Eviction
import AcojWorker.Cache.Replay

/-!
# Cached contents are what their keys say

Every program of the cache keeps the locking discipline. A data file of a hash key always has
that hash; a request for a hash returns a path to a content of that hash, or raises when the
download is another one.
-/

namespace AcojWorker.FileCache

open Python Effect Discipline

namespace Knowledge

open Classical in
/-- A file of a hash key is known once it is written; other files may be shared. -/
noncomputable def learn (κ : Knowledge) (key : Key) (path : Path) (file : File) : Knowledge :=
  { κ with
    files := fun p => if (∃ h, key = hashKey h) ∧ p = path then some (some file) else κ.files p }

noncomputable def stored (κ : Knowledge) (key : Key) (content : Bytes) (document : Value) :
    Knowledge :=
  (κ.learn key (dataPath key) (.data content)).learn key (metaPath key) (.json document)

end Knowledge

section Programs

variable {K : Keys} {sha256 : Bytes → String} {t : Nat} {κ : Knowledge} {key : Key}

theorem learn_files {path p : Path} {file : File} {x : Option File}
    (known : (κ.learn key path file).files p = some x) :
    ((∃ h, key = hashKey h) ∧ p = path) ∧ x = some file ∨ κ.files p = some x := by
  simp only [Knowledge.learn] at known
  split at known
  · next here => exact .inl ⟨here, (Option.some.inj known).symm⟩
  · exact .inr known

theorem withFile_self (κ : Knowledge) (path : Path) (x : Option File) :
    (κ.withFile path x).files path = some x :=
  Function.update_self ..

theorem withFile_other (κ : Knowledge) {path p : Path} (apart : p ≠ path) (x : Option File) :
    (κ.withFile path x).files p = κ.files p :=
  Function.update_of_ne apart ..

theorem knows_withFile {h : String} {path : Path} {x : Option File} {w : World}
    (mem : hashKey h ∈ K.keys) (held : 0 < κ.depth (hashKey h)) (owns : Owns (hashKey h) path)
    (knows : Knows K t κ w) (there : w.files path = x) : Knows K t (κ.withFile path x) w := by
  refine ⟨knows.depth, knows.fetched, fun p y hy => ?_, knows.temps, fun p y hy => ?_⟩
  · by_cases same : p = path
    · subst same
      rw [there]
      simpa [Knowledge.withFile] using hy
    · exact knows.files p y ((Function.update_of_ne same _ _).symm.trans hy)
  · by_cases same : p = path
    · exact ⟨h, mem, same ▸ owns, held⟩
    · exact knows.held p y ((Function.update_of_ne same _ _).symm.trans hy)

theorem knows_learn {path : Path} {file : File} {w : World} (mem : key ∈ K.keys)
    (held : 0 < κ.depth key) (owns : Owns key path) (knows : Knows K t κ w)
    (written : w.files path = some file) : Knows K t (κ.learn key path file) w := by
  refine ⟨knows.depth, knows.fetched, fun p x hx => ?_, knows.temps, fun p x hx => ?_⟩
  · rcases learn_files hx with ⟨⟨_, rfl⟩, rfl⟩ | hx
    · exact written
    · exact knows.files p x hx
  · rcases learn_files hx with ⟨⟨⟨h, rfl⟩, rfl⟩, _⟩ | hx
    · exact ⟨h, mem, owns, held⟩
    · exact knows.held p x hx

/-! ### Storing -/

section Store

variable {depth : Key → Nat} {fetched : Option Bytes} {content : Bytes} {document : Value}

theorem stored_files {path : Path} {x : Option File}
    (known : ((Knowledge.bare depth fetched).stored key content document).files path = some x) :
    ∃ h, key = hashKey h ∧ Owns key path := by
  rcases learn_files known with ⟨⟨⟨h, same⟩, here⟩, _⟩ | known
  · exact ⟨h, same, .inr here⟩
  · rcases learn_files known with ⟨⟨⟨h, same⟩, here⟩, _⟩ | known
    · exact ⟨h, same, .inl here⟩
    · exact nomatch known

theorem stored_document {h : String} :
    ((Knowledge.bare depth fetched).stored (hashKey h) content document).files
      (metaPath (hashKey h)) = some (some (.json document)) :=
  if_pos ⟨⟨h, rfl⟩, rfl⟩

theorem stored_data {h : String} (mem : hashKey h ∈ K.keys) :
    ((Knowledge.bare depth fetched).stored (hashKey h) content document).files
      (dataPath (hashKey h)) = some (some (.data content)) := by
  have apart := K.distinct.apart h mem
  rw [Knowledge.stored, Knowledge.learn]
  simp only [apart, and_false, if_false]
  exact if_pos ⟨⟨h, rfl⟩, rfl⟩

theorem triple_storeFiles (mem : key ∈ K.keys) (held : 0 < depth key)
    (hashed : ∀ h, key = hashKey h → sha256 content = h) (digest etag objectName : String) :
    (locking K sha256).Triple t (Knows K t (.bare depth fetched))
      (storeFiles key content digest etag objectName)
      (Post (fun now => Knows K t ((Knowledge.bare depth fetched).stored key content
          (storedMeta content digest etag objectName now)))
        fun _ => Knows K t (.bare depth fetched)) := by
  refine triple_step (preserves_mkdirParent mem (.inl rfl)) (fun _ _ h => h) fun _ =>
    triple_pre (P := Knows K t (.bare depth fetched)) ?_ fun _ _ h => h.1
  refine triple_step (triple_tempSibling (dataPath key)) (fun _ _ h => h) fun (tmpData : Nat) =>
    triple_pure fun freshData => ?_
  refine triple_step (triple_tempSibling (metaPath key)) (fun _ _ h => knows_bare h)
    fun (tmpMeta : Nat) => triple_pure fun freshMeta => ?_
  have apart : tmpData ≠ tmpMeta := by
    rintro rfl
    simp [Knowledge.withTemp] at freshMeta
  rw [Knowledge.withTemp_comm _ apart]
  have freshData : (Knowledge.withTemp (.bare depth fetched) tmpMeta none).temps tmpData = none :=
    Function.update_of_ne apart ..
  refine triple_step preserves_now (fun _ _ h => knows_bare h) fun (now : ℚ) =>
    triple_pre ?_ fun _ _ h => h.1
  -- the data file
  refine triple_step (triple_writeTemp tmpData none (.data content))
    (fun _ _ left => left.elim fun _ => knows_bare) fun _ => ?_
  refine triple_step (triple_replace freshData rfl mem held (.inl rfl) ?_)
    (fun _ _ h => knows_bare h) fun _ => ?_
  · intro h hmem same
    have own := K.distinct.separate h hmem key mem (dataPath key) (.inl same) (.inl rfl)
    exact ⟨content, rfl, hashed h own⟩
  refine triple_pre (P := Knows K t (.withTemp
    (.learn (.bare depth fetched) key (dataPath key) (.data content)) tmpMeta none)) ?_
    fun w _ h => knows_learn mem held (.inl rfl) h.1 h.2
  -- the meta file
  refine triple_step (triple_writeTemp tmpMeta none _) (fun _ _ left => left.elim fun _ => knows_bare)
    fun _ => ?_
  refine triple_step (triple_replace rfl ?_ mem held (.inr rfl) ?_)
    (fun _ _ h => knows_bare h) fun _ => ?_
  · cases known : (Knowledge.learn (.bare depth fetched) key (dataPath key)
      (.data content)).files (metaPath key) with
    | none => rfl
    | some x =>
        rcases learn_files known with ⟨⟨⟨h, rfl⟩, same⟩, _⟩ | known
        · exact absurd same.symm (K.distinct.apart h mem)
        · cases known
  · exact fun h hmem same => absurd same (metaPath_ne_dataPath mem h hmem)
  exact triple_ret fun w _ h => knows_learn mem held (.inr rfl) h.1 h.2

/-- What is left when a lock that was taken again is released. -/
theorem leaving_again {κ κ' : Knowledge} (mem : key ∈ K.keys) (held : 0 < κ'.depth key)
    (deeper : κ.depth = Function.update κ'.depth key (κ'.depth key + 1))
    (fetched : κ'.fetched = none) (temps : κ'.temps = fun _ => none)
    (files : ∀ path x, κ'.files path = some x → κ.files path = some x ∧
      ∃ h, key = hashKey h ∧ Owns key path) : Leaving K key κ κ' := by
  refine ⟨fun k => ?_, fetched, fun path x hx => ?_, fun temp x hx => ?_⟩
  · rw [deeper]
    by_cases same : k = key
    · subst same
      simp
    · simp [same]
  · obtain ⟨known, h, rfl, owns⟩ := files path x hx
    exact ⟨known, h, mem, owns, held⟩
  · rw [temps] at hx
    exact nomatch hx

/-- A block that returns no path may end with the content it is about. -/
theorem mayLeave_matching {outcome : Except Exc (Option Path)} (held : 0 < κ.depth key)
    (pathless : ∀ path, outcome ≠ .ok (some path)) (fetched : κ.fetched = some content)
    (hashed : ∀ h, key = hashKey h → sha256 content = h) : MayLeave sha256 key outcome κ := by
  refine ⟨held, fun _ _ path hpath => absurd hpath (pathless path), fun h hkey c hc mismatch => ?_⟩
  obtain rfl : content = c := Option.some.inj (fetched.symm.trans hc)
  exact absurd (hashed h hkey) mismatch

theorem triple_lockedStore (mem : key ∈ K.keys) (held : 0 < depth key)
    (hashed : ∀ h, key = hashKey h → sha256 content = h) (digest etag objectName : String) :
    (locking K sha256).Triple t (Knows K t (.bare depth (some content)))
      (withKeyLock key (fun _ => none) (storeFiles key content digest etag objectName))
      (Post (fun now => Knows K t ((Knowledge.bare depth none).stored key content
          (storedMeta content digest etag objectName now)))
        fun _ => Knows K t (.bare depth none)) := by
  have again : 0 < Function.update depth key (depth key + 1) key := by simp
  refine triple_withKeyLock
    (triple_post (triple_storeFiles mem again hashed digest etag objectName) ?_)
  rintro (e | now) w _ knows
  · refine ⟨_, .bare depth none, knows, mayLeave_matching again nofun rfl hashed,
      leaving_again mem held rfl rfl rfl nofun, fun _ h => h⟩
  · refine ⟨_, (Knowledge.bare depth none).stored key content
      (storedMeta content digest etag objectName now), knows,
      mayLeave_matching again nofun rfl hashed,
      leaving_again mem held rfl rfl rfl fun path x hx => ⟨hx, stored_files hx⟩, fun _ h => h⟩

/-- An eviction knows the entry that has just been stored. -/
theorem recent_stored (mem : key ∈ K.keys) (digest etag objectName : String) (now : ℚ) :
    Recent K (some now) ((Knowledge.bare depth fetched).stored key content
      (storedMeta content digest etag objectName now)) := by
  intro path x hx h hmem owns
  obtain ⟨h', rfl, owned⟩ := stored_files hx
  have own := K.distinct.separate h hmem (hashKey h') mem path owns owned
  rw [hashKey_injective own]
  exact ⟨_, now, stored_document, rfl, rfl⟩

theorem triple_store (unaliased : K.Unaliased) (settings : Settings) (mem : key ∈ K.keys)
    (held : 0 < depth key) (hashed : ∀ h, key = hashKey h → sha256 content = h)
    (digest etag objectName : String) :
    (locking K sha256).Triple t (Knows K t (.bare depth (some content)))
      (store settings key content digest etag objectName)
      (Post (fun _ w => ∃ document,
          Knows K t ((Knowledge.bare depth none).stored key content document) w)
        fun _ => Knows K t (.bare depth none)) := by
  refine triple_step (triple_lockedStore mem held hashed digest etag objectName)
    (fun _ _ h => h) fun now => ?_
  refine triple_post (preserves_evictLruIfNeeded unaliased rfl
    (recent_stored mem digest etag objectName now) settings 0) ?_
  rintro (e | _) w _ h
  · exact knows_bare h
  · exact ⟨_, h.1⟩

end Store

/-! ### Resolving -/

/-- The locks of a thread that has taken the lock of one key. -/
def oneLock (key : Key) : Key → Nat := Function.update (fun _ => 0) key 1

/-- The end of a block under the lock of a key, with what has to be known to release it. -/
def Closing (K : Keys) (sha256 : Bytes → String) (t : Nat) (key : Key)
    (outcome : Except Exc (Option Path)) (w : World) : Prop :=
  ∃ κ, Knows K t κ w ∧ κ.depth = oneLock key ∧ MayLeave sha256 key outcome κ

theorem closing_unfetched {outcome : Except Exc (Option Path)} {w : World}
    (knows : Knows K t κ w) (depth : κ.depth = oneLock key) (fetched : κ.fetched = none)
    (path : ∀ h, key = hashKey h → ∀ path, outcome = .ok (some path) →
      ∃ content, κ.files path = some (some (.data content)) ∧ sha256 content = h) :
    Closing K sha256 t key outcome w := by
  refine ⟨κ, knows, depth, by rw [depth]; simp [oneLock], path, fun _ _ content hcontent => ?_⟩
  rw [fetched] at hcontent
  exact nomatch hcontent

/-- A request that works under the lock of one key. -/
theorem triple_request {α : Type} {path : α → Option Path} {block : Caching α}
    (hblock : (locking K sha256).Triple t (Knows K t (.bare (oneLock key) none)) block
      fun r => Closing K sha256 t key (r.map path)) :
    (locking K sha256).Triple t (Resting t) (withKeyLock key path block) fun _ => Resting t := by
  refine triple_pre (P := Knows K t .resting) (triple_withKeyLock (triple_post hblock ?_)) ?_
  · rintro r w _ ⟨κ, knows, depth, may⟩
    refine ⟨κ, .resting, knows, may, ⟨fun k => ?_, rfl, nofun, nofun⟩, fun w knows =>
      ⟨knows.depth, knows.fetched⟩⟩
    rw [depth]
    by_cases same : k = key
    · subst same
      simp [oneLock, Knowledge.resting, Knowledge.bare]
    · simp [oneLock, same, Knowledge.resting, Knowledge.bare]
  · exact fun w _ resting => ⟨resting.depth, resting.fetched, nofun, nofun, nofun⟩

section Locked

/-- The data file is known to be missing, or it is not known. -/
theorem unknown_of_found (data : ∀ x, κ.files (dataPath key) = some x → x = none)
    (found : ∀ x, κ.files (dataPath key) = some x → true = x.isSome) :
    κ.files (dataPath key) = none := by
  cases known : κ.files (dataPath key) with
  | none => rfl
  | some x =>
      have there := found x known
      rw [data x known] at there
      exact nomatch there

theorem preserves_isKept {h : String} (absent : h ≠ "" → κ.files (dataPath key) = some none) :
    Preserves K sha256 t κ (isKept h key) fun kept => kept = false :=
  preserves_ite
    (fun declared => preserves_mono (preserves_pathExists _) fun _ hfound =>
      hfound none (absent declared))
    fun _ => preserves_ret rfl

variable (mem : key ∈ K.keys) (held : 0 < κ.depth key)
  (document : κ.files (metaPath key) = none)

theorem preserves_isFresh : Preserves K sha256 t κ (isFresh key) fun _ => True := by
  refine preserves_step (preserves_pathExists _) fun found => ?_
  refine preserves_ite (fun _ => ?_) fun _ => preserves_ret trivial
  refine preserves_step (preserves_readMeta _) fun document => ?_
  refine preserves_ite (fun _ => ?_) fun _ => preserves_ret trivial
  refine preserves_step preserves_now fun now => ?_
  refine preserves_step (preserves_lift fun _ _ => trivial) fun validated => ?_
  exact preserves_step (preserves_lift fun _ _ => trivial) fun validated => preserves_ret trivial

theorem preserves_headOrNone (objectName : String) :
    Preserves K sha256 t κ (headOrNone objectName) fun _ => True :=
  preserves_tryCatch (preserves_any (fun _ _ _ h => h) fun _ => trivial) fun _ =>
    preserves_ret trivial

include mem held document

theorem preserves_hit :
    Preserves K sha256 t κ (hit key) fun path => path = some (dataPath key) :=
  preserves_step (preserves_touchMeta mem held document) fun _ => preserves_ret rfl

variable (data : ∀ x, κ.files (dataPath key) = some x → x = none)

include data

theorem preserves_remoteGone {h : String} (absent : h ≠ "" → κ.files (dataPath key) = some none) :
    Preserves K sha256 t κ (remoteGone h key) fun path => path = none := by
  refine preserves_bind (preserves_isKept absent) ?_
  rintro _ rfl
  refine preserves_ite nofun fun _ => ?_
  refine preserves_bind (preserves_pathExists _) fun found hfound => ?_
  refine preserves_ite (fun yes => ?_) fun _ => preserves_ret rfl
  have unknown := unknown_of_found data fun x hx => yes ▸ hfound x hx
  exact preserves_step (preserves_removeEntry mem held unknown document) fun _ => preserves_ret rfl

theorem preserves_isCurrent (remoteEtag : String) :
    Preserves K sha256 t κ (isCurrent key remoteEtag) fun current =>
      κ.files (dataPath key) = some none → current = false := by
  refine preserves_bind (preserves_pathExists _) fun found hfound => ?_
  refine preserves_ite (fun yes => ?_) fun _ => preserves_ret fun _ => rfl
  have unknown := unknown_of_found data fun x hx => yes ▸ hfound x hx
  refine preserves_step (preserves_readMeta _) fun read => ?_
  refine preserves_step (preserves_lift fun _ _ => trivial) fun same => ?_
  refine preserves_ite (fun _ => ?_) fun _ => ?_
  · refine preserves_step preserves_now fun validated => ?_
    refine preserves_step preserves_now fun accessed => ?_
    refine preserves_step (preserves_updateMeta mem held document _) fun _ => preserves_ret ?_
    exact fun absent => nomatch unknown.symm.trans absent
  · exact preserves_step (preserves_removeEntry mem held unknown document) fun _ =>
      preserves_ret fun _ => rfl

omit document data in
/-- After a download of another content nothing is stored. -/
theorem triple_downloadAndStore (unaliased : K.Unaliased) (settings : Settings)
    (depth : κ.depth = oneLock key) (fetched : κ.fetched = none) {objectName h : String}
    (keyed : key = cacheKey h objectName)
    (absent : h ≠ "" → κ.files (dataPath key) = some none) (remoteEtag : String) :
    (locking K settings.sha256).Triple t (Knows K t κ)
      (downloadAndStore settings objectName h key remoteEtag)
      (Closing K settings.sha256 t key) := by
  refine triple_step (triple_download objectName)
    (fun e w knows => closing_unfetched knows depth fetched nofun) fun (content : Bytes) => ?_
  refine triple_bind (R := fun _ w => (∀ h', key = hashKey h' → settings.sha256 content = h') ∧
    Knows K t (.bare κ.depth (some content)) w) (triple_lift ?_ ?_) fun digest =>
      triple_pure fun hashed => ?_
  · intro digest w hdigest _ knows
    refine ⟨fun h' hkey => ?_, knows_bare knows⟩
    obtain ⟨rfl, declared⟩ := cacheKey_eq_hashKey (keyed.symm.trans hkey)
    rw [checkedHash, if_neg declared] at hdigest
    by_cases same : settings.sha256 content = h
    · exact same
    · rw [if_pos same] at hdigest
      exact nomatch hdigest
  · intro e w _ _ knows
    refine ⟨_, knows, depth, held, nofun, fun h' hkey _ _ _ => ⟨⟨e, rfl⟩, ?_⟩⟩
    exact absent (cacheKey_eq_hashKey (keyed.symm.trans hkey)).2
  refine triple_step (triple_store unaliased settings mem held hashed digest remoteEtag objectName)
    (fun e w knows => closing_unfetched knows depth rfl nofun) fun _ => ?_
  refine triple_exists fun stored => triple_ret fun w _ knows =>
    closing_unfetched knows depth rfl ?_
  intro h' hkey path hpath
  rw [← Option.some.inj (Except.ok.inj hpath)]
  subst hkey
  exact ⟨content, stored_data mem, hashed h' rfl⟩

theorem triple_revalidate (unaliased : K.Unaliased) (settings : Settings)
    (depth : κ.depth = oneLock key) (fetched : κ.fetched = none) {objectName h : String}
    (keyed : key = cacheKey h objectName)
    (absent : h ≠ "" → κ.files (dataPath key) = some none) :
    (locking K settings.sha256).Triple t (Knows K t κ) (revalidate settings objectName h key)
      (Closing K settings.sha256 t key) := by
  have closed : ∀ {e : Exc} {w : World}, Knows K t κ w →
      Closing K settings.sha256 t key (.error e) w :=
    fun knows => closing_unfetched knows depth fetched nofun
  refine triple_step (preserves_any (fun _ _ _ h => h) fun _ => trivial) (fun _ _ h => closed h)
    fun _ => triple_pre (P := Knows K t κ) ?_ fun _ _ h => h.1
  refine triple_step (preserves_headOrNone objectName) (fun _ _ h => closed h) fun head =>
    triple_pre (P := Knows K t κ) ?_ fun _ _ h => h.1
  cases head with
  | none =>
      refine triple_post (preserves_remoteGone mem held document data absent) ?_
      rintro (e | _) w _ h
      · exact closed h
      · obtain ⟨knows, rfl⟩ := h
        exact closing_unfetched knows depth fetched nofun
  | some remoteEtag =>
      refine triple_step (preserves_isCurrent mem held document data remoteEtag)
        (fun _ _ h => closed h) fun current => ?_
      refine triple_ite (fun yes => triple_ret fun w _ h => ?_) fun _ =>
        triple_pre (triple_downloadAndStore mem held unaliased settings depth fetched keyed absent
          remoteEtag) fun _ _ h => h.1
      refine closing_unfetched h.1 depth fetched fun h' hkey => ?_
      have known := absent (cacheKey_eq_hashKey (keyed.symm.trans hkey)).2
      exact absurd (h.2 known) (by rw [yes]; nofun)

end Locked

/-- Whether a content of the hash is there. -/
theorem triple_pathExists {h : String} (mem : hashKey h ∈ K.keys) (held : 0 < κ.depth (hashKey h)) :
    (locking K sha256).Triple t (Knows K t κ) (call (.pathExists (dataPath (hashKey h))))
      (Post (fun (found : Bool) w => ∃ x, (found = x.isSome ∧ ∀ file, x = some file →
          ∃ content, file = .data content ∧ sha256 content = h) ∧
          Knows K t (κ.withFile (dataPath (hashKey h)) x) w)
        fun _ => Knows K t κ) := by
  refine triple_perform knows_stable (fun _ _ _ _ => trivial) ?_
  rintro w r w' intact knows _ ⟨rfl, answer⟩
  refine ⟨keeps_same intact, ?_⟩
  cases r with
  | error e => exact knows
  | ok found =>
      obtain ⟨file, dir⟩ := answer found rfl
      refine ⟨w'.files (dataPath (hashKey h)), ⟨Bool.eq_iff_iff.mpr ⟨fun yes => ?_, file⟩,
        intact.hashed h mem⟩, knows_withFile mem held (.inl rfl) knows rfl⟩
      exact (dir yes).resolve_right (not_isDir intact mem (.inl rfl))

theorem oneLock_held (depth : κ.depth = oneLock key) : 0 < κ.depth key := by
  rw [depth]
  simp [oneLock]

theorem triple_hit (mem : key ∈ K.keys) (depth : κ.depth = oneLock key)
    (fetched : κ.fetched = none) (document : κ.files (metaPath key) = none)
    (data : ∀ h, key = hashKey h →
      ∃ content, κ.files (dataPath key) = some (some (.data content)) ∧ sha256 content = h) :
    (locking K sha256).Triple t (Knows K t κ) (hit key) (Closing K sha256 t key) := by
  refine triple_post (preserves_hit mem (oneLock_held depth) document) ?_
  rintro (e | path) w _ h
  · exact closing_unfetched h depth fetched nofun
  · refine closing_unfetched h.1 depth fetched fun h' hkey p hp => ?_
    rw [← Option.some.inj ((h.2 : path = _).symm.trans (Except.ok.inj hp))]
    exact data h' hkey

theorem triple_resolveLocked (unaliased : K.Unaliased) (settings : Settings)
    {objectName h : String} (mem : cacheKey h objectName ∈ K.keys) :
    (locking K settings.sha256).Triple t (Knows K t (.bare (oneLock (cacheKey h objectName)) none))
      (resolveLocked settings objectName h (cacheKey h objectName))
      (Closing K settings.sha256 t (cacheKey h objectName)) := by
  by_cases declared : h = ""
  · -- a name: nothing is known of its files
    refine triple_step (R := fun _ => Knows K t (.bare (oneLock (cacheKey h objectName)) none))
      (E := fun _ => Knows K t (.bare (oneLock (cacheKey h objectName)) none)) ?_
      (fun _ _ knows => closing_unfetched knows rfl rfl nofun) fun trusted => ?_
    · rw [isTrusted, if_neg (not_not.mpr declared)]
      refine triple_post preserves_isFresh ?_
      rintro (e | _) w _ h
      · exact h
      · exact h.1
    · refine triple_ite (fun _ => ?_) fun _ => ?_
      · exact triple_hit mem rfl rfl rfl fun h' hkey =>
          absurd declared (cacheKey_eq_hashKey hkey).2
      · exact triple_revalidate mem (oneLock_held rfl) rfl (by rintro _ ⟨⟩) unaliased
          settings rfl rfl rfl fun nonempty => absurd declared nonempty
  · -- a hash: its data file is there, with that hash, or known to be missing
    have keyed := cacheKey_of_hash declared objectName
    rw [keyed] at mem ⊢
    have trust : isTrusted h (hashKey h) = call (.pathExists (dataPath (hashKey h))) :=
      if_pos declared
    rw [resolveLocked, trust]
    refine triple_step (triple_pathExists mem (oneLock_held rfl))
      (fun _ _ knows => closing_unfetched knows rfl rfl nofun) fun (found : Bool) => ?_
    refine triple_exists fun x => triple_pure fun there => ?_
    have unknown := withFile_other (.bare (oneLock (hashKey h)) none) (K.distinct.apart h mem).symm x
    have known := withFile_self (.bare (oneLock (hashKey h)) none) (dataPath (hashKey h)) x
    obtain ⟨hfound, hashed⟩ := there
    cases x with
    | none =>
        rw [hfound]
        exact triple_revalidate mem (oneLock_held rfl) unknown
          (fun y hy => Option.some.inj (hy.symm.trans known)) unaliased settings rfl rfl
          keyed.symm fun _ => known
    | some file =>
        obtain ⟨content, rfl, hash⟩ := hashed file rfl
        rw [hfound]
        refine triple_hit mem rfl rfl unknown fun h' hkey => ⟨content, known, ?_⟩
        rw [← hashKey_injective hkey]
        exact hash

/-! ### Requests -/

/-- The requests of a run: downloads, invalidations, purges and evictions. -/
def Asked (K : Keys) : Request → Prop
  | .resolve objectName h | .invalidate objectName h => cacheKey h objectName ∈ K.keys
  | .purge | .evict _ => True
  | .store .. => False

theorem triple_of_preserves {α : Type} {p : Caching α} {Q : α → Prop}
    (hp : Preserves K sha256 t .resting p Q) :
    (locking K sha256).Triple t (Resting t) p fun _ => Resting t := by
  refine triple_pre (triple_post hp ?_) fun w _ resting =>
    ⟨resting.depth, resting.fetched, nofun, nofun, nofun⟩
  rintro (e | a) w _ h
  · exact ⟨h.depth, h.fetched⟩
  · exact ⟨h.1.depth, h.1.fetched⟩

theorem triple_resolveOrDownload (unaliased : K.Unaliased) {settings : Settings}
    (enabled : settings.enabled = true) {objectName h : String}
    (mem : cacheKey h objectName ∈ K.keys) :
    (locking K settings.sha256).Triple t (Resting t) (resolveOrDownload settings objectName h)
      fun _ => Resting t := by
  rw [resolveOrDownload, if_pos enabled]
  refine triple_bind (R := fun _ => Resting t) (triple_post (triple_of_preserves
    (preserves_any (fun _ _ _ h => h) fun _ => trivial)) ?_) fun _ => ?_
  · rintro (e | _) w _ h <;> exact h
  · refine triple_request (triple_post (triple_resolveLocked unaliased settings mem) ?_)
    rintro (e | path) w _ h <;> exact h

theorem triple_invalidate {settings : Settings} {objectName h : String}
    (mem : cacheKey h objectName ∈ K.keys) :
    (locking K sha256).Triple t (Resting t) (FileCache.invalidate settings objectName h)
      fun _ => Resting t := by
  refine triple_ite (fun _ => ?_) fun _ => triple_ret fun _ _ h => h
  refine triple_request (triple_post (preserves_removeEntry mem (oneLock_held rfl) rfl rfl) ?_)
  rintro (e | _) w _ h
  · exact closing_unfetched h rfl rfl nofun
  · exact closing_unfetched h.1 rfl rfl nofun

theorem program_rests (unaliased : K.Unaliased) {settings : Settings}
    (enabled : settings.enabled = true) {r : Request} (asked : Asked K r) :
    (locking K settings.sha256).Triple t (Resting t) (r.program settings)
      fun _ => Resting t := by
  cases r with
  | resolve objectName h =>
      refine triple_bind (R := fun _ => Resting t)
        (triple_post (triple_resolveOrDownload unaliased enabled asked) ?_) fun _ =>
          triple_ret fun _ _ h => h
      rintro (e | _) w _ h <;> exact h
  | invalidate objectName h => exact triple_invalidate asked
  | purge => exact triple_of_preserves (preserves_purgeExpired rfl (fun _ => rfl) settings)
  | evict needBytes =>
      exact triple_of_preserves
        (preserves_evictLru unaliased rfl (by rintro _ _ ⟨⟩) needBytes)
  | store => exact asked.elim

end Programs

/-! ### Runs -/

/-- The pools of the runs of an empty cache with the keys of `K`, in which no store takes as
long as the grace period. -/
def Reached (K : Keys) (settings : Settings) (clock : ℚ) : Pool CacheCalls Exc World → Prop :=
  Pool.Reachable disk (fun p => ∃ r, Asked K r ∧ p = r.program settings) (fun _ => TimelyStore)
    (World.start clock)

theorem reached_sound {K : Keys} (unaliased : K.Unaliased) {settings : Settings}
    (enabled : settings.enabled = true) {clock : ℚ} {pool : Pool CacheCalls Exc World}
    (run : Reached K settings clock pool) : (locking K settings.sha256).Sound pool := by
  have inv : Intact K settings.sha256 (World.start clock) := ⟨nofun, nofun, nofun⟩
  have idle : ∀ t, Resting t (World.start clock) := fun t => ⟨fun _ => rfl, rfl⟩
  refine reachable_sound ?_ inv idle run
  rintro _ ⟨r, asked, rfl⟩ t
  exact program_rests unaliased enabled asked

/-- At every moment a data file of a hash key has that hash. A block under the lock of a hash
key that returns a path leaves a content of that hash there; after the download of another
content it raises, and no content is stored for the key. -/
theorem cache_integrity (K : Keys) (unaliased : K.Unaliased) {settings : Settings}
    (enabled : settings.enabled = true) {clock : ℚ} {pool : Pool CacheCalls Exc World}
    (run : Reached K settings clock pool) :
    (∀ h, hashKey h ∈ K.keys → ∀ file, pool.state.files (dataPath (hashKey h)) = some file →
      ∃ content, file = .data content ∧ settings.sha256 content = h) ∧
    ∀ t h outcome next, pool.threads t = some (.call (.release (hashKey h) outcome) next) →
      (∀ path, outcome = .ok (some path) →
        ∃ content, pool.state.files path = some (.data content) ∧ settings.sha256 content = h) ∧
      ∀ content, pool.state.fetched t = some content → settings.sha256 content ≠ h →
        (∃ e, outcome = .error e) ∧ pool.state.files (dataPath (hashKey h)) = none := by
  have sound := reached_sound unaliased enabled run
  refine ⟨sound.inv.hashed, fun t h outcome next at_call => ?_⟩
  have good : Verified settings.sha256 t (.release (hashKey h) outcome) pool.state :=
    sound.good at_call trivial
  exact good h rfl

/-- The answers of a concrete run in which stores take no time. -/
def timely (around : Surroundings) (t : Nat) : Script CacheCalls Exc World :=
  (answer around t).guarded fun op w =>
    match op with
    | .evictionTime _ (some since) => w.clock < since + lruGracePeriod
    | _ => true

theorem timely_follows (around : Surroundings) (t : Nat) :
    (timely around t).Follows disk (fun _ => TimelyStore) t := by
  refine guarded_follows (fun _ _ _ _ => exec_of_answer) fun op w passed => ?_
  cases op with
  | evictionTime entries since =>
      cases since with
      | none => trivial
      | some since =>
          have recent : w.clock < since + lruGracePeriod := of_decide_eq_true passed
          exact recent
  | _ => trivial

/-- One content has the hash `h`; a cache that is full with one byte. -/
def oneByte : Settings where
  enabled := true
  maxBytes := 1
  ttlSeconds := 3600
  sha256 := fun content => if content = [2] then "h" else "other"

instance {keys : List Key} {checked : ∀ key ∈ keys, Checks keys key} (r : Request) :
    Decidable (Asked (.ofList keys checked) r) :=
  match r with
  | .resolve objectName h | .invalidate objectName h =>
      inferInstanceAs (Decidable (cacheKey h objectName ∈ keys))
  | .purge | .evict _ => isTrue trivial
  | .store .. => isFalse id

abbrev hashOnly : Keys := .ofList ["sha256:h"] (by decide +kernel)

theorem cache_integrity_download : ∃ pool path next,
    Reached hashOnly oneByte 0 pool ∧
      pool.threads 0 = some (.call (.release (hashKey "h") (.ok (some path))) next) ∧
      ∃ content, pool.state.files path = some (.data content) ∧ oneByte.sha256 content = "h" := by
  have returned : returnedAfter (timely ⟨[], fun _ => [2], "e"⟩ 0) oneByte [] (.resolve "b" "h") =
      some (hashKey "h", ["sh", "sha256:h"], some (some [2])) := by decide +kernel
  obtain ⟨pool, next, run, at_call, _⟩ := reachable_returning (Q := Asked hashOnly)
    (timely_follows _ 0) (by decide +kernel) returned
  have unaliased : hashOnly.Unaliased := unaliased_ofList (by decide +kernel)
  exact ⟨pool, _, next, run, at_call,
    ((cache_integrity hashOnly unaliased rfl run).2 0 "h" _ next at_call).1 _ rfl⟩

/-- The meta file of the object `x/sha256:h` stands for the key `sha256:h`. -/
abbrev hashAndName : Keys := .ofList ["name:x/sha256:h", "sha256:h"] (by decide +kernel)

/-- A minute after the object `x/sha256:h` has been stored, a store for the hash `h` evicts its
own files, and a path is returned where there is no file. -/
theorem cache_integrity_aliased : ∃ pool path next,
    Reached hashAndName oneByte 0 pool ∧
      pool.threads 0 = some (.call (.release (hashKey "h") (.ok (some path))) next) ∧
      pool.state.files path = none := by
  have returned : returnedAfter (timely
        ⟨[["na", "name:x", "sha256:h.meta.json"], ["sh", "sha256:h.meta.json"]],
          fun objectName => if objectName = "b" then [2] else [1], "e"⟩ 0) oneByte
      [.ask (.resolve "x/sha256:h" ""), .wait 61] (.resolve "b" "h") =
        some (hashKey "h", ["sh", "sha256:h"], none) := by decide +kernel
  obtain ⟨pool, next, run, at_call, gone⟩ := reachable_returning (Q := Asked hashAndName)
    (timely_follows _ 0) (by decide +kernel) returned
  exact ⟨pool, _, next, run, at_call, Option.map_eq_none_iff.mp gone⟩

end AcojWorker.FileCache
