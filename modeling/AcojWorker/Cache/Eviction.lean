import AcojWorker.Cache.Knowledge

/-!
# What an eviction leaves alone

Removing entries, rewriting meta files, evicting and purging keep all a thread knows. An
eviction spares the files that led to it, because the meta file written a moment ago is
within the grace period, as long as no other file stands for its key.
-/

namespace AcojWorker.FileCache

open Python Effect Discipline

section Programs

variable {K : Keys} {sha256 : Bytes → String} {t : Nat} {κ : Knowledge}

/-! ### Files -/

section Files

variable {key : Key} (mem : key ∈ K.keys) (held : 0 < κ.depth key)

include mem held

theorem preserves_unlink {path : Path} (owns : Owns key path) (unknown : κ.files path = none) :
    Preserves K sha256 t κ (unlink path) fun _ => True := by
  refine preserves_tryCatch (preserves_step (preserves_pathExists path) fun found => ?_) fun e => ?_
  · refine preserves_ite (fun _ => ?_) fun _ => preserves_ret trivial
    exact preserves_unlinkCall unknown fun w knows => knows_mayChange mem held knows owns
  · exact preserves_ite (fun _ => preserves_ret trivial) fun _ => preserves_raise e

theorem preserves_removeEntry (data : κ.files (dataPath key) = none)
    (document : κ.files (metaPath key) = none) :
    Preserves K sha256 t κ (removeEntry key) fun _ => True :=
  preserves_step (preserves_unlink mem held (.inl rfl) data) fun _ =>
    preserves_unlink mem held (.inr rfl) document

omit held in
/-- A meta file is no data file of a hash key. -/
theorem metaPath_ne_dataPath (h : String) (hmem : hashKey h ∈ K.keys) :
    metaPath key ≠ dataPath (hashKey h) := by
  intro same
  have shared := K.distinct.separate h hmem key mem (dataPath (hashKey h)) (.inl rfl)
    (.inr same.symm)
  rw [shared] at same
  exact K.distinct.apart h hmem same.symm

theorem preserves_writeMeta (unknown : κ.files (metaPath key) = none) (document : Value) :
    Preserves K sha256 t κ (writeMeta (metaPath key) document) fun _ => True := by
  refine triple_bind (triple_tempSibling (metaPath key)) ?_
  rintro tmp w intact ⟨fresh, knows⟩
  refine triple_tryCatch (E := fun _ w => ∃ left, Knows K t (κ.withTemp tmp left) w)
    ?_ (fun e => ?_) w intact knows
  · refine triple_bind (R := fun _ => Knows K t (κ.withTemp tmp none))
      (triple_post (preserves_mkdirParent mem (.inr rfl)) ?_) fun _ => ?_
    · rintro (e | _) w _ h
      · exact ⟨none, h⟩
      · exact h.1
    refine triple_bind (triple_writeTemp tmp none (.json document)) fun _ => ?_
    refine triple_post (triple_replace fresh unknown mem held (.inr rfl) ?_) ?_
    · exact fun h hmem same => absurd same (metaPath_ne_dataPath mem h hmem)
    · rintro (e | _) w _ h
      · exact ⟨_, h⟩
      · exact ⟨h.1, trivial⟩
  · refine triple_exists fun left => triple_ite (fun _ => ?_) fun _ => ?_
    · refine triple_tryCatch (E := fun _ => Knows K t κ)
        (triple_post (triple_unlinkTemp fresh) ?_) fun e => ?_
      · rintro (e | _) w _ h
        · exact h
        · exact ⟨h, trivial⟩
      · exact preserves_ite (fun _ => preserves_ret trivial) fun _ => preserves_raise e
    · exact triple_raise fun w _ knows => knows_of_withTemp fresh knows

end Files

theorem preserves_readMeta (path : Path) :
    Preserves K sha256 t κ (readMeta path) fun _ => True :=
  preserves_tryCatch (preserves_mono (preserves_loadJson path) fun _ _ => trivial) fun e =>
    preserves_ite (fun _ => preserves_ret trivial) fun _ => preserves_raise e

theorem preserves_now : Preserves K sha256 t κ (call .now) fun _ => True :=
  preserves_any (fun _ _ _ h => h.2) fun _ => trivial

section Meta

variable {key : Key} (mem : key ∈ K.keys) (held : 0 < κ.depth key)
  (unknown : κ.files (metaPath key) = none)

include mem held unknown

theorem preserves_updateMeta (updates : List (String × Value)) :
    Preserves K sha256 t κ (updateMeta (metaPath key) updates) fun _ => True := by
  refine preserves_step (preserves_readMeta _) fun document => ?_
  split
  · exact preserves_ret trivial
  · exact preserves_step (preserves_lift fun _ _ => trivial) fun document =>
      preserves_writeMeta mem held unknown document

theorem preserves_touchMeta :
    Preserves K sha256 t κ (touchMeta (metaPath key)) fun _ => True := by
  refine preserves_step (preserves_readMeta _) fun document => ?_
  split
  · exact preserves_ret trivial
  · refine preserves_step preserves_now fun now => ?_
    refine preserves_step (preserves_lift fun _ _ => trivial) fun accessed => ?_
    refine preserves_step (preserves_lift fun _ _ => trivial) fun accessed => ?_
    refine preserves_ite (fun _ => preserves_ret trivial) fun _ => ?_
    exact preserves_step (preserves_lift fun _ _ => trivial) fun document =>
      preserves_writeMeta mem held unknown document

end Meta

/-! ### Eviction -/

/-- An entry of the statistics, with the access time of the meta file that is known. -/
structure Collected (K : Keys) (κ : Knowledge) (entry : Entry) : Prop where
  mem : entry.key ∈ K.keys
  accessed : ∀ h document, entry.key = hashKey h →
    κ.files (metaPath (hashKey h)) = some (some (.json document)) →
    document.get "last_accessed_at" (.int 0) = .ok entry.lastAccessed

theorem preserves_collectEntry (unaliased : K.Unaliased) (path : Path) {entries : List Entry}
    (collected : ∀ entry ∈ entries, Collected K κ entry) :
    Preserves K sha256 t κ (collectEntry entries path) fun entries =>
      ∀ entry ∈ entries, Collected K κ entry := by
  refine preserves_tryCatch (preserves_bind (preserves_loadJson path) ?_)
    fun _ => preserves_ret collected
  rintro document ⟨⟨owner, ownerMem, owns⟩, read⟩
  split
  · next key derived =>
      refine preserves_ite (fun nonempty => ?_) fun _ => preserves_ret collected
      refine preserves_step (preserves_lift fun _ _ => trivial) fun size => ?_
      refine preserves_bind (preserves_lift fun _ h => h) fun accessed haccessed => ?_
      refine preserves_ret ?_
      intro entry hentry
      rcases List.mem_append.mp hentry with hentry | hentry
      · exact collected entry hentry
      · obtain rfl := List.mem_singleton.mp hentry
        refine ⟨K.derived owner ownerMem path owns key derived nonempty, ?_⟩
        rintro h known rfl hknown
        have own := unaliased owner ownerMem path owns h derived
        rw [← own] at hknown
        have same : Reads (some (.json known)) document := read _ hknown
        obtain rfl : document = known := same
        exact haccessed
  · exact preserves_ret collected

theorem preserves_collectStats (unaliased : K.Unaliased) :
    Preserves K sha256 t κ collectStats fun entries =>
      ∀ entry ∈ entries, Collected K κ entry := by
  refine preserves_step (preserves_any (fun _ _ _ h => h) fun _ => trivial) fun found => ?_
  refine preserves_ite (fun _ => ?_) fun _ => preserves_ret nofun
  refine preserves_step (preserves_any (fun _ _ _ h => h.1) fun _ => trivial) fun paths => ?_
  exact preserves_foldlM (fun entries collected path _ =>
    preserves_collectEntry unaliased path collected) nofun

theorem preserves_calculateTotalSize :
    Preserves K sha256 t κ calculateTotalSize fun _ => True := by
  refine preserves_step (preserves_any (fun _ _ _ h => h) fun _ => trivial) fun found => ?_
  refine preserves_ite (fun _ => ?_) fun _ => preserves_ret trivial
  refine preserves_step (preserves_any (fun _ _ _ h => h.1) fun _ => trivial) fun paths => ?_
  refine preserves_foldlM (fun total _ path _ => ?_) trivial
  refine preserves_tryCatch ?_ fun _ => preserves_ret trivial
  exact preserves_step (preserves_loadJson path) fun document =>
    preserves_step (preserves_lift fun _ _ => trivial) fun size =>
    preserves_step (preserves_lift fun _ _ => trivial) fun size => preserves_ret trivial

/-- Every candidate was last accessed before the grace period. -/
theorem evictionCandidates_old {now : ℚ} {entries candidates : List Entry}
    (h : evictionCandidates now entries = .ok candidates) :
    ∀ entry ∈ candidates, entry ∈ entries ∧
      ∃ accessed, entry.lastAccessed.number = .ok accessed ∧ lruGracePeriod < now - accessed := by
  obtain ⟨dated, hdated, h⟩ := bind_eq_ok.mp h
  cases h
  intro entry hentry
  obtain ⟨⟨accessed, entry⟩, hmem, rfl⟩ := List.mem_map.mp hentry
  have kept := (List.mem_insertionSort _).mp hmem
  obtain ⟨old, recent⟩ := List.mem_filter.mp kept
  obtain ⟨source, hsource, hread⟩ := (mapM_ok_mem hdated).2 _ old
  obtain ⟨q, hq, hpair⟩ := bind_eq_ok.mp hread
  obtain ⟨rfl, rfl⟩ := Prod.mk.inj (Except.ok.inj hpair)
  exact ⟨hsource, q, hq, by simpa using recent⟩

/-- Files that are known are those of a hash key that was accessed when the store began. -/
def Recent (K : Keys) (since : Option ℚ) (κ : Knowledge) : Prop :=
  ∀ path x, κ.files path = some x → ∀ h, hashKey h ∈ K.keys → Owns (hashKey h) path →
    ∃ document s, κ.files (metaPath (hashKey h)) = some (some (.json document)) ∧
      document.get "last_accessed_at" (.int 0) = .ok (.float s) ∧ since = some s

/-- No file of a candidate is known: it would have been accessed a moment ago. -/
theorem candidate_unknown {since : Option ℚ} (recent : Recent K since κ)
    (known : ∀ path x, κ.files path = some x →
      ∃ h, hashKey h ∈ K.keys ∧ Owns (hashKey h) path ∧ 0 < κ.depth (hashKey h))
    {now : ℚ} (timely : ∀ s, since = some s → now < s + lruGracePeriod) {entry : Entry}
    (collected : Collected K κ entry) {accessed : ℚ} (read : entry.lastAccessed.number = .ok accessed)
    (old : lruGracePeriod < now - accessed) {path : Path} (owns : Owns entry.key path) :
    κ.files path = none := by
  cases hx : κ.files path with
  | none => rfl
  | some x =>
      obtain ⟨h, hmem, howns, _⟩ := known path x hx
      have own := K.distinct.separate h hmem entry.key collected.mem path howns owns
      obtain ⟨document, s, hmeta, hget, hsince⟩ := recent path x hx h hmem howns
      have same := (collected.accessed h document own hmeta).symm.trans hget
      rw [Except.ok.inj same] at read
      obtain rfl : s = accessed := Except.ok.inj read
      linarith [timely s hsince]

theorem preserves_evictEntry (fetched : κ.fetched = none) {entry : Entry}
    (mem : entry.key ∈ K.keys) (unknown : ∀ path, Owns entry.key path → κ.files path = none)
    (now freed : ℚ) :
    Preserves K sha256 t κ (evictEntry now freed entry) fun _ => True := by
  refine preserves_tryKeyLock fetched trivial ?_
  have held : 0 < (κ.locked entry.key).depth entry.key := by simp [Knowledge.locked]
  refine preserves_step (preserves_removeEntry mem held (unknown _ (.inl rfl))
    (unknown _ (.inr rfl))) fun _ => ?_
  exact preserves_step (preserves_lift fun _ _ => trivial) fun size => preserves_ret trivial

theorem preserves_evictCandidates (fetched : κ.fetched = none) (needBytes : Int) (now : ℚ)
    {candidates : List Entry} (mem : ∀ entry ∈ candidates, entry.key ∈ K.keys)
    (unknown : ∀ entry ∈ candidates, ∀ path, Owns entry.key path → κ.files path = none)
    (freed : ℚ) :
    Preserves K sha256 t κ (evictCandidates needBytes now freed candidates) fun _ => True := by
  induction candidates generalizing freed with
  | nil => exact preserves_ret trivial
  | cons entry candidates ih =>
      refine preserves_ite (fun _ => preserves_ret trivial) fun _ => ?_
      refine preserves_step (preserves_evictEntry fetched (mem _ (List.mem_cons_self ..))
        (unknown _ (List.mem_cons_self ..)) now freed) fun freed => ?_
      exact ih (fun e he => mem e (List.mem_cons_of_mem _ he))
        (fun e he => unknown e (List.mem_cons_of_mem _ he)) freed

theorem preserves_evictLru (unaliased : K.Unaliased) (fetched : κ.fetched = none)
    {since : Option ℚ} (recent : Recent K since κ) (needBytes : Int) :
    Preserves K sha256 t κ (evictLru needBytes since) fun _ => True := by
  intro w intact knows
  have known := knows.held
  refine preserves_bind (preserves_collectStats unaliased) (fun entries collected => ?_)
    w intact knows
  refine preserves_bind (preserves_evictionTime entries since) fun now timely => ?_
  refine preserves_bind (preserves_lift fun _ h => h) fun candidates hcandidates => ?_
  have old := evictionCandidates_old hcandidates
  refine preserves_evictCandidates fetched needBytes now ?_ ?_ 0
  · exact fun entry hentry => (collected entry (old entry hentry).1).mem
  · intro entry hentry path owns
    obtain ⟨hmem, accessed, read, late⟩ := old entry hentry
    exact candidate_unknown recent known timely (collected entry hmem) read late owns

theorem preserves_evictLruIfNeeded (unaliased : K.Unaliased) (fetched : κ.fetched = none)
    {since : Option ℚ} (recent : Recent K since κ) (settings : Settings) (newSize : Int) :
    Preserves K sha256 t κ (evictLruIfNeeded settings newSize since) fun _ => True := by
  refine preserves_step preserves_calculateTotalSize fun total => ?_
  exact preserves_ite (fun _ => preserves_ret trivial) fun _ =>
    preserves_evictLru unaliased fetched recent _

/-! ### Expiry -/

theorem preserves_purgeFile (fetched : κ.fetched = none) (unknown : ∀ path, κ.files path = none)
    (settings : Settings) (now : ℚ) (path : Path) :
    Preserves K sha256 t κ (purgeFile settings now path) fun _ => True := by
  refine preserves_tryCatch (preserves_bind (preserves_loadJson path) ?_)
    fun _ => preserves_ret trivial
  rintro document ⟨⟨owner, ownerMem, owns⟩, _⟩
  refine preserves_step (preserves_lift fun _ _ => trivial) fun accessed => ?_
  refine preserves_step (preserves_lift fun _ _ => trivial) fun accessed => ?_
  refine preserves_ite (fun _ => ?_) fun _ => preserves_ret trivial
  split
  · next key derived =>
      refine preserves_ite (fun nonempty => ?_) fun _ => preserves_ret trivial
      have mem := K.derived owner ownerMem path owns key derived nonempty
      have held : 0 < (κ.locked key).depth key := by simp [Knowledge.locked]
      exact preserves_tryKeyLock fetched trivial
        (preserves_removeEntry mem held (unknown _) (unknown _))
  · exact preserves_ret trivial

theorem preserves_purgeExpired (fetched : κ.fetched = none) (unknown : ∀ path, κ.files path = none)
    (settings : Settings) : Preserves K sha256 t κ (purgeExpired settings) fun _ => True := by
  refine preserves_ite (fun _ => ?_) fun _ => preserves_ret trivial
  refine preserves_step (preserves_any (fun _ _ _ h => h) fun _ => trivial) fun _ => ?_
  refine preserves_step (preserves_any (fun _ _ _ h => h) fun _ => trivial) fun found => ?_
  refine preserves_ite (fun _ => ?_) fun _ => preserves_ret trivial
  refine preserves_step preserves_now fun now => ?_
  refine preserves_step (preserves_any (fun _ _ _ h => h.1) fun _ => trivial) fun paths => ?_
  exact preserves_foldlM (fun _ _ path _ => preserves_purgeFile fetched unknown settings now path)
    trivial

end Programs

end AcojWorker.FileCache
