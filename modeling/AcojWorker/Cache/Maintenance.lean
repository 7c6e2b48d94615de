import AcojWorker.Cache.LruEviction
import AcojWorker.Cache.Recency

/-!
# Maintenance finds its entries again

A purge and an eviction read meta files, take the key of each from its name, and remove the
files of that key. The name stands for the key if the key is plain; then the files that are
removed are those of the entry that was read.
-/

namespace AcojWorker.FileCache

open Python Effect

theorem lift_accessedAt {α : Type} (document : Value) (next : ℚ → Caching α) :
    ((liftM (document.get "last_accessed_at" (.int 0)) : Caching Value) >>= fun v =>
      (liftM v.number : Caching ℚ) >>= next) = (liftM (accessedAt document) : Caching ℚ) >>= next := by
  rw [accessedAt]
  cases document.get "last_accessed_at" (.int 0) with
  | error e => rfl
  | ok v => rfl

section Purge

variable {settings : Settings} {keys : Set Key} {t : Nat} {w w₁ w' : World}
  {τ : Trace CacheCalls Exc} {now : ℚ}

/-- A meta file belongs to one of the keys, under its own name. -/
theorem Fenced.owner (fenced : Fenced keys w) (plain : ∀ key ∈ keys, Plain key) {path : Path}
    (listed : isMetaFile path = true) {file : File} (there : w.files path = some file) :
    ∃ key ∈ keys, path = metaPath key := by
  obtain ⟨key, mem, owns⟩ := fenced path file there
  exact ⟨key, mem, ((plain key mem).isMetaFile owns).mp listed⟩

theorem Fenced.loses {gone : Path → Prop} (fenced : Fenced keys w) (loses : Loses t gone w w') :
    Fenced keys w' := by
  intro path file there
  by_cases lost : gone path
  · exact nomatch (loses.lost path lost).symm.trans there
  · exact fenced path file ((loses.kept path lost).symm.trans there)

/-- One meta file of a purge: nothing happens to the files, or the entry is removed. -/
theorem performs_purgeFile_metaPath {key : Key} (plain : Plain key) {out : Except Exc Unit}
    (h : (purgeFile settings now (metaPath key)).Performs steady t w τ out w') :
    out = .ok () ∧
      (Still t w w' ∧ (∀ document accessed, w.files (metaPath key) = some (.json document) →
          accessedAt document = .ok accessed →
            now - accessed ≤ settings.ttlSeconds ∨ w.free t key = false) ∨
        Loses t (Owns key) w w' ∧ w.free t key = true ∧
          ∀ document accessed, w.files (metaPath key) = some (.json document) →
            accessedAt document = .ok accessed → settings.ttlSeconds < now - accessed) := by
  let Spared : Prop := ∀ document accessed, w.files (metaPath key) = some (.json document) →
    accessedAt document = .ok accessed → now - accessed ≤ settings.ttlSeconds ∨ w.free t key = false
  let Expired : Prop := ∀ document accessed, w.files (metaPath key) = some (.json document) →
    accessedAt document = .ok accessed → settings.ttlSeconds < now - accessed
  rw [purgeFile] at h
  simp only [lift_accessedAt, plain.decoded, ne_eq, plain.ne_empty, not_false_eq_true,
    if_true] at h
  have body : ∀ {τ out w'}, ((call (.loadJson (metaPath key)) : Caching Value) >>= fun document =>
      (liftM (accessedAt document) : Caching ℚ) >>= fun accessed =>
        if settings.ttlSeconds < now - accessed then tryKeyLock key none () (removeEntry key)
        else pure ()).Performs steady t w τ out w' →
      Still t w w' ∧ Spared ∨ out = .ok () ∧ Loses t (Owns key) w w' ∧ w.free t key = true ∧
        Expired := by
    intro τ out w' h
    obtain ⟨e, failed, -⟩ | ⟨v, τ₁, τ₂, w₁, loaded, rest, rfl⟩ := performs_bind h
    · obtain ⟨still, read, -⟩ := performs_loadJson failed
      exact .inl ⟨still, fun document _ there => nomatch read document there⟩
    · obtain ⟨still, read, -⟩ := performs_loadJson loaded
      have same : ∀ document, w.files (metaPath key) = some (.json document) → v = document :=
        fun document there => Except.ok.inj (read document there)
      cases recorded : accessedAt v with
      | error e =>
          rw [recorded, Program.lift_error_bind] at rest
          obtain ⟨-, rfl, run⟩ := performs_raise rest
          refine .inl ⟨(still_drift run).before still, fun document accessed there dated => ?_⟩
          rw [← same document there, recorded] at dated
          exact nomatch dated
      | ok accessed =>
          have own : ∀ document other, w.files (metaPath key) = some (.json document) →
              accessedAt document = .ok other → other = accessed := by
            intro document other there dated
            rw [← same document there, recorded] at dated
            exact (Except.ok.inj dated).symm
          rw [recorded, Program.lift_ok_bind] at rest
          split at rest
          · next expired =>
            obtain ⟨free, rfl, loses⟩ | ⟨busy, rfl, idle, -⟩ :=
              performs_tryKeyLock rest fun _ _ _ _ removed => performs_removeEntry removed
            · refine .inr ⟨rfl, loses.before still, still.free key ▸ free, ?_⟩
              intro document other there dated
              rw [own document other there dated]
              exact expired
            · exact .inl ⟨idle.before still, fun _ _ _ _ => .inr (still.free key ▸ busy)⟩
          · next fresh =>
            obtain ⟨-, rfl, run⟩ := performs_ret rest
            refine .inl ⟨(still_drift run).before still, fun document other there dated => ?_⟩
            rw [own document other there dated]
            exact .inl (not_lt.mp fresh)
  obtain ⟨a, done, rfl⟩ | ⟨e, τ₁, τ₂, w₁, raised, handled, rfl⟩ := performs_tryCatch h
  · obtain ⟨still, spared⟩ | ⟨-, removed⟩ := body done
    · exact ⟨rfl, .inl ⟨still, spared⟩⟩
    · exact ⟨rfl, .inr removed⟩
  · obtain ⟨-, rfl, run⟩ := performs_ret handled
    obtain ⟨still, spared⟩ | ⟨impossible, -⟩ := body raised
    · exact ⟨rfl, .inl ⟨(still_drift run).before still, spared⟩⟩
    · exact nomatch impossible

/-- A path that is no file is passed over. -/
theorem performs_purgeFile_absent {path : Path} (absent : w.files path = none)
    {out : Except Exc Unit}
    (h : (purgeFile settings now path).Performs steady t w τ out w') :
    out = .ok () ∧ Still t w w' := by
  have body : ∀ {α : Type} {next : Value → Caching α} {τ out w'},
      ((call (.loadJson path) : Caching Value) >>= next).Performs steady t w τ out w' →
      (∃ e, out = .error e) ∧ Still t w w' := by
    intro α next τ out w' h
    obtain ⟨e, failed, rfl⟩ | ⟨v, τ₁, τ₂, w₁, loaded, -, rfl⟩ := performs_bind h
    · exact ⟨⟨e, rfl⟩, (performs_loadJson failed).1⟩
    · obtain ⟨_, impossible, -⟩ := (performs_loadJson loaded).2.2 absent
      exact nomatch impossible
  rw [purgeFile] at h
  obtain ⟨a, done, rfl⟩ | ⟨e, τ₁, τ₂, w₁, raised, handled, rfl⟩ := performs_tryCatch h
  · obtain ⟨⟨_, impossible⟩, -⟩ := body done
    exact nomatch impossible
  · obtain ⟨-, rfl, run⟩ := performs_ret handled
    exact ⟨rfl, (still_drift run).before (body raised).2⟩

/-- The entries that a purge removes as it goes through some paths. -/
structure Purges (settings : Settings) (keys : Set Key) (t : Nat) (now : ℚ) (paths : List Path)
    (removed : Key → Prop) (w w' : World) : Prop where
  loses : Loses t (fun path => ∃ key, removed key ∧ Owns key path) w w'
  listed : ∀ key, removed key → key ∈ keys ∧ metaPath key ∈ paths
  decided : ∀ key ∈ keys, metaPath key ∈ paths → ∀ document accessed,
    w.files (metaPath key) = some (.json document) → accessedAt document = .ok accessed →
      (removed key ↔ settings.ttlSeconds < now - accessed ∧ w.free t key = true)

theorem purges_none {paths : List Path} (still : Still t w w')
    (spared : ∀ key ∈ keys, metaPath key ∈ paths → ∀ document accessed,
      w.files (metaPath key) = some (.json document) → accessedAt document = .ok accessed →
        now - accessed ≤ settings.ttlSeconds ∨ w.free t key = false) :
    Purges settings keys t now paths (fun _ => False) w w' where
  loses := still.congr fun path => iff_of_false (fun ⟨_, h, _⟩ => h) id
  listed _ := False.elim
  decided key mem there document accessed found dated := by
    refine iff_of_false id ?_
    rintro ⟨expired, free⟩
    obtain fresh | busy := spared key mem there document accessed found dated
    · exact absurd expired (not_lt.mpr fresh)
    · exact nomatch free.symm.trans busy

variable (plain : ∀ key ∈ keys, Plain key)

include plain

theorem performs_purgeFile (fenced : Fenced keys w) {path : Path} (listed : isMetaFile path = true)
    {out : Except Exc Unit}
    (h : (purgeFile settings now path).Performs steady t w τ out w') :
    out = .ok () ∧ ∃ removed, Purges settings keys t now [path] removed w w' := by
  cases there : w.files path with
  | none =>
      obtain ⟨rfl, still⟩ := performs_purgeFile_absent there h
      refine ⟨rfl, _, purges_none still fun key _ here document _ found => ?_⟩
      rw [List.mem_singleton.mp here, there] at found
      exact nomatch found
  | some file =>
      obtain ⟨key, mem, rfl⟩ := fenced.owner plain listed there
      have same : ∀ key' ∈ keys, metaPath key' ∈ [metaPath key] → key' = key :=
        fun key' mem' here => (plain key mem).owner (plain key' mem') (.inr rfl)
          (.inr (List.mem_singleton.mp here).symm)
      obtain ⟨rfl, ⟨still, spared⟩ | ⟨loses, free, expired⟩⟩ :=
        performs_purgeFile_metaPath (plain key mem) h
      · refine ⟨rfl, _, purges_none still fun key' mem' here document accessed found dated => ?_⟩
        obtain rfl := same key' mem' here
        exact spared document accessed found dated
      · refine ⟨rfl, (· = key), ⟨loses.congr fun path => by simp, ?_, ?_⟩⟩
        · rintro _ rfl
          exact ⟨mem, List.mem_singleton_self _⟩
        · intro key' mem' here document accessed found dated
          obtain rfl := same key' mem' here
          exact iff_of_true rfl ⟨expired document accessed found dated, free⟩

/-- The removals of a path and of those after it. -/
theorem Purges.cons {path : Path} {paths : List Path} (nodup : path ∉ paths)
    {removed removed' : Key → Prop} (first : Purges settings keys t now [path] removed w w₁)
    (rest : Purges settings keys t now paths removed' w₁ w') :
    Purges settings keys t now (path :: paths) (fun key => removed key ∨ removed' key) w w' where
  loses := (first.loses.trans rest.loses).congr fun path => by
    simp only [or_and_right, exists_or]
  listed key h := by
    obtain gone | gone := h
    · obtain ⟨mem, here⟩ := first.listed key gone
      exact ⟨mem, List.mem_cons.mpr (.inl (List.mem_singleton.mp here))⟩
    · obtain ⟨mem, later⟩ := rest.listed key gone
      exact ⟨mem, List.mem_cons_of_mem _ later⟩
  decided key mem here document accessed found dated := by
    obtain rfl | later := List.mem_cons.mp here
    · rw [← first.decided key mem (List.mem_singleton_self _) document accessed found dated]
      exact or_iff_left fun gone => nodup (rest.listed key gone).2
    · have other : ¬ removed key := fun gone =>
        nodup (List.mem_singleton.mp (first.listed key gone).2 ▸ later)
      have kept : w₁.files (metaPath key) = w.files (metaPath key) := by
        apply first.loses.kept
        rintro ⟨key', gone, owns⟩
        have same := (plain key' (first.listed key' gone).1).owner (plain key mem) owns (.inr rfl)
        exact other (same ▸ gone)
      rw [or_iff_right other, rest.decided key mem later document accessed (kept ▸ found) dated,
        first.loses.free]

theorem performs_purgeFiles {paths : List Path} (nodup : paths.Nodup)
    (listed : ∀ path ∈ paths, isMetaFile path = true) (fenced : Fenced keys w)
    {out : Except Exc Unit}
    (h : (paths.foldlM (fun (_ : Unit) path => purgeFile settings now path) ()).Performs steady t w
      τ out w') :
    out = .ok () ∧ ∃ removed, Purges settings keys t now paths removed w w' := by
  induction paths generalizing w τ with
  | nil =>
      obtain ⟨-, rfl, run⟩ := performs_ret h
      exact ⟨rfl, _, purges_none (still_drift run) fun _ _ => nofun⟩
  | cons path paths ih =>
      rw [List.nodup_cons] at nodup
      rw [List.foldlM_cons] at h
      have named := listed path (List.mem_cons_self ..)
      obtain ⟨_, τ₁, τ₂, w₁, first, rest, rfl⟩ := performs_step h fun _ _ _ raised =>
        nomatch (performs_purgeFile plain fenced named raised).1
      obtain ⟨-, removed, purges⟩ := performs_purgeFile plain fenced named first
      obtain ⟨rfl, removed', later⟩ := ih nodup.2
        (fun p mem => listed p (List.mem_cons_of_mem _ mem)) (fenced.loses purges.loses) rest
      exact ⟨rfl, _, purges.cons plain nodup.1 later⟩

omit plain in
theorem Purges.before {paths : List Path} {removed : Key → Prop} (still : Still t w w₁)
    (purges : Purges settings keys t now paths removed w₁ w') :
    Purges settings keys t now paths removed w w' where
  loses := purges.loses.before still
  listed := purges.listed
  decided key mem here document accessed found dated := by
    rw [← still.free]
    rw [← still.files] at found
    exact purges.decided key mem here document accessed found dated

/-- A purge goes through all meta files, at one moment. -/
theorem performs_purgeExpired (enabled : settings.enabled = true) (fenced : Fenced keys w)
    {out : Except Exc Unit} (h : (purgeExpired settings).Performs steady t w τ out w') :
    out = .ok () ∧ ∃ now paths removed, ⟨.now, .ok now⟩ ∈ τ ∧
      (∀ key, (w.files (metaPath key)).isSome → metaPath key ∈ paths) ∧
      Purges settings keys t now paths removed w w' := by
  rw [purgeExpired, if_pos enabled] at h
  obtain ⟨_, τ₁, τ₂, w₁, rooted, h₁, rfl⟩ :=
    performs_step h fun _ _ _ raised => nomatch (performs_ensureRoot raised).1
  obtain ⟨-, first⟩ := performs_ensureRoot rooted
  obtain ⟨_, τ₃, τ₄, w₂, asked, h₂, rfl⟩ :=
    performs_step h₁ fun _ _ _ raised => nomatch (performs_rootExists raised).1
  obtain ⟨⟨⟩, second⟩ := performs_rootExists asked
  obtain ⟨now, τ₅, τ₆, w₃, timed, h₃, rfl⟩ := performs_step h₂ fun _ _ _ raised => by
    obtain ⟨-, _, impossible, -⟩ := performs_now raised
    exact nomatch impossible
  obtain ⟨third, -⟩ := performs_now timed
  obtain rfl := (performs_perform timed).1
  obtain ⟨paths, τ₇, τ₈, w₄, walked, loop, rfl⟩ := performs_step h₃ fun _ _ _ raised => by
    obtain ⟨_, _, impossible, _⟩ := performs_metaFiles raised
    exact nomatch impossible
  obtain ⟨fourth, _, ⟨⟩, nodup, listed⟩ := performs_metaFiles walked
  have begun : Still t w w₃ := third.before (second.before first)
  have still : Still t w w₄ := fourth.before begun
  obtain ⟨rfl, removed, purges⟩ := performs_purgeFiles plain nodup
    (fun path mem => ((listed path).mp mem).1) (fenced.loses still) loop
  have timed : (⟨.now, .ok now⟩ : Effect.Event CacheCalls Exc) ∈ τ₁ ++ (τ₃ ++ ([⟨.now, .ok now⟩] ++
      (τ₇ ++ τ₈))) :=
    List.mem_append_right _ (List.mem_append_right _ (List.mem_append_left _
      (List.mem_singleton_self _)))
  refine ⟨rfl, now, paths, removed, timed, fun key there => ?_, purges.before still⟩
  rw [← begun.files] at there
  exact (listed _).mpr ⟨isMetaFile_metaPath key, .inl there⟩

end Purge

/-! ### Evictions -/

section Eviction

variable {keys : Set Key} {t : Nat} {w w₁ w' : World} {τ : Trace CacheCalls Exc}

/-- The entries that have been found are those of keys, and their meta files are there. -/
def Found (keys : Set Key) (w : World) (entries : List Entry) : Prop :=
  ∀ entry ∈ entries, entry.key ∈ keys ∧ (w.files (metaPath entry.key)).isSome

variable (plain : ∀ key ∈ keys, Plain key)

include plain

theorem performs_collectEntry_found (fenced : Fenced keys w) {path : Path}
    (listed : isMetaFile path = true) {entries : List Entry} (found : Found keys w entries)
    {out : Except Exc (List Entry)}
    (h : (collectEntry entries path).Performs steady t w τ out w') :
    ∃ entries', out = .ok entries' ∧ Found keys w entries' := by
  rw [collectEntry] at h
  obtain ⟨a, done, rfl⟩ | ⟨e, τ₁, τ₂, w₁, -, handled, rfl⟩ := performs_tryCatch h
  · refine ⟨a, rfl, ?_⟩
    obtain ⟨_, _, impossible⟩ | ⟨document, τ₁, τ₂, w₁, loaded, rest, rfl⟩ := performs_bind done
    · cases impossible
    cases there : w.files path with
    | none =>
        obtain ⟨_, impossible, -⟩ := (performs_loadJson loaded).2.2 there
        cases impossible
    | some file =>
        obtain ⟨key, mem, rfl⟩ := fenced.owner plain listed there
        simp only [(plain key mem).decoded, ne_eq, (plain key mem).ne_empty, not_false_eq_true,
          if_true] at rest
        cases hsize : document.get "size_bytes" (.int 0) with
        | error e =>
            rw [hsize, Program.lift_error_bind] at rest
            cases (performs_raise rest).2.1
        | ok size =>
            rw [hsize, Program.lift_ok_bind] at rest
            cases haccessed : document.get "last_accessed_at" (.int 0) with
            | error e =>
                rw [haccessed, Program.lift_error_bind] at rest
                cases (performs_raise rest).2.1
            | ok accessed =>
                rw [haccessed, Program.lift_ok_bind] at rest
                obtain ⟨-, same, -⟩ := performs_ret rest
                cases same
                intro entry hentry
                obtain old | new := List.mem_append.mp hentry
                · exact found entry old
                · rw [List.mem_singleton.mp new]
                  exact ⟨mem, there ▸ rfl⟩
  · obtain ⟨-, rfl, -⟩ := performs_ret handled
    exact ⟨entries, rfl, found⟩

theorem performs_collectStats_found (fenced : Fenced keys w) {out : Except Exc (List Entry)}
    (h : collectStats.Performs steady t w τ out w') :
    ∃ entries, out = .ok entries ∧ Found keys w entries := by
  rw [collectStats] at h
  obtain ⟨_, τ₁, τ₂, w₁, asked, h₁, rfl⟩ :=
    performs_step h fun _ _ _ raised => nomatch (performs_rootExists raised).1
  obtain ⟨⟨⟩, first⟩ := performs_rootExists asked
  obtain ⟨paths, τ₃, τ₄, w₂, walked, loop, rfl⟩ := performs_step h₁ fun _ _ _ raised => by
    obtain ⟨_, _, impossible, _⟩ := performs_metaFiles raised
    exact nomatch impossible
  obtain ⟨second, _, ⟨⟩, -, listed⟩ := performs_metaFiles walked
  have round : ∀ entries, ∀ path ∈ paths, ∀ s τ out s', Still t w s ∧ Found keys w entries →
      (collectEntry entries path).Performs steady t s τ out s' →
      ∃ entries', out = .ok entries' ∧ Still t w s' ∧ Found keys w entries' := by
    rintro entries path mem s τ out s' ⟨before, found⟩ h
    have same : ∀ entries, Found keys s entries ↔ Found keys w entries := by
      intro entries
      rw [Found, Found, before.files]
    obtain ⟨entries', rfl, found'⟩ := performs_collectEntry_found plain (fenced.loses before)
      ((listed path).mp mem).1 ((same entries).mpr found) h
    have still : Still t s s' := still_of_quiet (calls_collectEntry (fun _ => trivial) _ _) h
    exact ⟨entries', rfl, still.before before, (same entries').mp found'⟩
  obtain ⟨entries, rfl, -, found⟩ := performs_foldlM_keeps
    (I := fun entries s => Still t w s ∧ Found keys w entries)
    (fun _ _ _ inv run => ⟨(still_drift run).before inv.1, inv.2⟩) round
    ⟨second.before first, fun _ mem => absurd mem List.not_mem_nil⟩ loop
  exact ⟨entries, rfl, found⟩

omit plain

/-- No lock is tried but that of the key. -/
def TriesOnly (key : Key) : CacheOp → Prop
  | .tryAcquire key' _ => key' = key
  | _ => True

theorem triesOnly_evictEntry (now freed : ℚ) (entry : Entry) :
    (evictEntry now freed entry).Calls (TriesOnly entry.key) := by
  refine Program.calls_bind (Program.calls_perform rfl) fun acquired => ?_
  refine Program.calls_ite (fun _ => ?_) fun _ => trivial
  refine Program.calls_bind (Program.calls_attempt ?_) fun outcome => ?_
  · refine Program.calls_bind ?_ fun _ => Program.calls_bind (Program.calls_lift _) fun _ => trivial
    exact calls_removeEntry _ (fun _ => trivial) fun _ => trivial
  · exact Program.calls_bind (Program.calls_perform trivial) fun _ => Program.calls_lift _

theorem Loses.absent {gone : Path → Prop} (loses : Loses t gone w w') {path : Path}
    (absent : w.files path = none) : w'.files path = none := by
  by_cases lost : gone path
  · exact loses.lost path lost
  · exact (loses.kept path lost).trans absent

/-- The locks that were taken are those of entries whose files are gone. -/
def Evicts (entries : List Entry) (τ : Trace CacheCalls Exc) (w' : World) : Prop :=
  ∀ key evicting, ⟨.tryAcquire key evicting, .ok true⟩ ∈ τ →
    (∃ entry ∈ entries, entry.key = key) ∧ ∀ path, Owns key path → w'.files path = none

theorem performs_evictEntry_evicts {now freed : ℚ} {entry : Entry} {out : Except Exc ℚ}
    (h : (evictEntry now freed entry).Performs steady t w τ out w') :
    (∃ gone, Loses t gone w w') ∧ Evicts [entry] τ w' := by
  have own : ∀ key evicting, ⟨.tryAcquire key evicting, .ok true⟩ ∈ τ → key = entry.key :=
    fun key evicting mem => Program.yields_calls h.1 (triesOnly_evictEntry now freed entry) _ mem
  obtain ⟨-, -, loses⟩ | ⟨-, -, still, rfl⟩ := performs_evictEntry h
  · refine ⟨⟨_, loses⟩, fun key evicting mem => ?_⟩
    obtain rfl := own key evicting mem
    exact ⟨⟨entry, List.mem_singleton_self _, rfl⟩, loses.lost⟩
  · exact ⟨⟨_, still⟩, fun key evicting mem => nomatch List.mem_singleton.mp mem⟩

theorem performs_evictCandidates_evicts {needBytes : Int} {now freed : ℚ}
    {candidates : List Entry} {out : Except Exc Unit}
    (h : (evictCandidates needBytes now freed candidates).Performs steady t w τ out w') :
    (∃ gone, Loses t gone w w') ∧ Evicts candidates τ w' := by
  induction candidates generalizing w freed τ with
  | nil =>
      obtain ⟨rfl, -, run⟩ := performs_ret h
      exact ⟨⟨_, still_drift run⟩, fun _ _ => nofun⟩
  | cons entry candidates ih =>
      rw [evictCandidates] at h
      split at h
      · obtain ⟨rfl, -, run⟩ := performs_ret h
        exact ⟨⟨_, still_drift run⟩, fun _ _ => nofun⟩
      · obtain ⟨e, raised, rfl⟩ | ⟨freed', τ₁, τ₂, w₁, first, rest, rfl⟩ := performs_bind h
        · obtain ⟨loses, evicts⟩ := performs_evictEntry_evicts raised
          refine ⟨loses, fun key evicting mem => ?_⟩
          obtain ⟨⟨e, here, same⟩, gone⟩ := evicts key evicting mem
          rw [List.mem_singleton.mp here] at same
          exact ⟨⟨entry, List.mem_cons_self .., same⟩, gone⟩
        · obtain ⟨⟨_, loses⟩, evicts⟩ := performs_evictEntry_evicts first
          obtain ⟨⟨_, loses'⟩, evicts'⟩ := ih rest
          refine ⟨⟨_, loses.trans loses'⟩, fun key evicting mem => ?_⟩
          obtain here | later := List.mem_append.mp mem
          · obtain ⟨⟨e, here, same⟩, gone⟩ := evicts key evicting here
            rw [List.mem_singleton.mp here] at same
            exact ⟨⟨entry, List.mem_cons_self .., same⟩, fun path owns =>
              loses'.absent (gone path owns)⟩
          · obtain ⟨⟨e, mem', same⟩, gone⟩ := evicts' key evicting later
            exact ⟨⟨e, List.mem_cons_of_mem _ mem', same⟩, gone⟩

/-- What an eviction removes are entries that it has found. -/
theorem performs_evictLru_evicts (plain : ∀ key ∈ keys, Plain key) (fenced : Fenced keys w)
    {needBytes : Int} {since : Option ℚ} {out : Except Exc Unit}
    (h : (evictLru needBytes since).Performs steady t w τ out w') {key : Key}
    {evicting : Option ℚ} (taken : ⟨.tryAcquire key evicting, .ok true⟩ ∈ τ) :
    key ∈ keys ∧ (w.files (metaPath key)).isSome ∧ ∀ path, Owns key path → w'.files path = none := by
  rw [evictLru] at h
  obtain ⟨entries, τ₁, τ₂, w₁, collected, h₁, rfl⟩ := performs_step h fun _ _ _ raised => by
    obtain ⟨_, impossible, -⟩ := performs_collectStats_found plain fenced raised
    exact nomatch impossible
  obtain ⟨_, ⟨⟩, found⟩ := performs_collectStats_found plain fenced collected
  have quiet := Program.yields_calls (C := Quiet) collected.1
    (calls_collectStats trivial trivial fun _ => trivial)
  obtain ⟨now, τ₃, τ₄, w₂, timed, h₂, rfl⟩ := performs_step h₁ fun _ _ _ raised => by
    obtain ⟨-, _, impossible, -⟩ := performs_evictionTime raised
    exact nomatch impossible
  obtain rfl := (performs_perform timed).1
  obtain here | later := List.mem_append.mp taken
  · exact (quiet _ here).elim
  obtain here | later := List.mem_append.mp later
  · exact nomatch List.mem_singleton.mp here
  cases sorted : evictionCandidates now entries with
  | error e =>
      rw [sorted, Program.lift_error_bind] at h₂
      obtain ⟨rfl, -, -⟩ := performs_raise h₂
      exact absurd later List.not_mem_nil
  | ok candidates =>
      rw [sorted, Program.lift_ok_bind] at h₂
      obtain ⟨-, evicts⟩ := performs_evictCandidates_evicts h₂
      obtain ⟨⟨entry, mem, rfl⟩, gone⟩ := evicts key evicting later
      obtain ⟨owned, there⟩ := found entry (evictionCandidates_old sorted entry mem).1
      exact ⟨owned, there, gone⟩

end Eviction

/-! ### Reachable caches -/

/-- A purge keeps exactly the entries that are recent enough or locked by another thread. -/
structure PurgesExpired (settings : Settings) (keys : Set Key) (t : Nat) (now : ℚ) (w w' : World) :
    Prop where
  kept : ∀ key ∈ keys, ∀ document accessed, w.files (metaPath key) = some (.json document) →
    accessedAt document = .ok accessed →
      now - accessed ≤ settings.ttlSeconds ∨ w.free t key = false →
        ∀ path, Owns key path → w'.files path = w.files path
  gone : ∀ key ∈ keys, ∀ document accessed, w.files (metaPath key) = some (.json document) →
    accessedAt document = .ok accessed →
      settings.ttlSeconds < now - accessed → w.free t key = true →
        ∀ path, Owns key path → w'.files path = none

theorem Purges.expired {settings : Settings} {keys : Set Key} {t : Nat} {now : ℚ} {w w' : World}
    {paths : List Path} {removed : Key → Prop} (plain : ∀ key ∈ keys, Plain key)
    (all : ∀ key, (w.files (metaPath key)).isSome → metaPath key ∈ paths)
    (purges : Purges settings keys t now paths removed w w') :
    PurgesExpired settings keys t now w w' where
  kept key mem document accessed found dated spared path owns := by
    have unremoved : ¬ removed key := by
      rw [purges.decided key mem (all key (found ▸ rfl)) document accessed found dated]
      rintro ⟨expired, free⟩
      obtain fresh | busy := spared
      · exact absurd expired (not_lt.mpr fresh)
      · exact nomatch free.symm.trans busy
    apply purges.loses.kept
    rintro ⟨key', gone, owns'⟩
    have same := (plain key' (purges.listed key' gone).1).owner (plain key mem) owns' owns
    exact unremoved (same ▸ gone)
  gone key mem document accessed found dated expired free path owns := by
    have gone := (purges.decided key mem (all key (found ▸ rfl)) document accessed found dated).mpr
      ⟨expired, free⟩
    exact purges.loses.lost path ⟨key, gone, owns⟩

/-- Maintenance acts on the entries it inspects, whatever locks are held and whatever the time
is: what a purge keeps has not expired or is locked, what an eviction counts is gone, and the
name of a meta file stands for its key. -/
structure Maintained (settings : Settings) (keys : Set Key) (w : World) : Prop where
  dated : ∀ key ∈ keys, ∀ file, w.files (metaPath key) = some file →
    ∃ document accessed, file = .json document ∧ accessedAt document = .ok accessed
  purges : ∀ t τ out w', (purgeExpired settings).Performs steady t w τ out w' →
    out = .ok () ∧ ∃ now, ⟨.now, .ok now⟩ ∈ τ ∧ PurgesExpired settings keys t now w w'
  evicts : ∀ t needBytes since τ out w', (evictLru needBytes since).Performs steady t w τ out w' →
    ∀ key now, ⟨.tryAcquire key (some now), .ok true⟩ ∈ τ →
      key ∈ keys ∧ (w.files (metaPath key)).isSome ∧ ∀ path, Owns key path → w'.files path = none
  decodes : ∀ key ∈ keys, keyFromMetaPath (metaPath key) = some key

/-- Every cache that requests for objects with plain keys lead to is maintained. -/
theorem maintained_of_runs {settings : Settings} {objects : Set (String × String)} {clock : ℚ}
    {c : Pool CacheCalls Exc World} (run : Runs settings (objectKeys objects) clock c)
    (noSlash : ∀ o ∈ objects, '/' ∉ (cacheKey o.1 o.2).toList)
    (unsuffixed : ∀ o ∈ objects, ¬ metaSuffix.toList <:+ (cacheKey o.1 o.2).toList)
    (enabled : settings.enabled = true) {w : World} (files : w.files = c.state.files) :
    Maintained settings (objectKeys objects) w := by
  have plain : ∀ key ∈ objectKeys objects, Plain key := by
    rintro _ ⟨o, mem, rfl⟩
    exact ⟨sharded_cacheKey o.1 o.2, noSlash o mem, unsuffixed o mem⟩
  have fenced : Fenced (objectKeys objects) w := by
    intro path file there
    exact fenced_of_runs run path file (files ▸ there)
  refine ⟨fun key mem file there => dated_of_runs run plain mem (files ▸ there),
    fun t τ out w' h => ?_, fun t needBytes since τ out w' h key now taken => ?_,
    fun key mem => (plain key mem).decoded⟩
  · obtain ⟨rfl, now, paths, removed, timed, all, purges⟩ :=
      performs_purgeExpired plain enabled fenced h
    exact ⟨rfl, now, timed, purges.expired plain all⟩
  · exact performs_evictLru_evicts plain fenced h taken

/-! ### Two objects -/

/-- A request that is performed alone is a run. -/
theorem runs_performs {settings : Settings} {keys : Set Key} {clock : ℚ} {r : Request}
    (names : r.Names keys) {w w' : World} (run : Runs settings keys clock ⟨fun _ => none, w⟩)
    {t : Nat} {τ : Trace CacheCalls Exc} {out : Except Exc Unit}
    (h : (r.program settings).Performs steady t w τ out w') :
    Runs settings keys clock ⟨fun _ => none, w'⟩ := by
  have answers : ∀ op w r w', steady.exec t op w r w' → disk.exec t op w r w' :=
    fun _ _ _ _ h => h.1
  exact reachable_performs answers (fun _ _ h => h) ⟨r, names, rfl⟩ run h

/-- The object is resolved, and a long time passes. -/
def resolvedBefore (objectName : String) : Option World :=
  (((Request.resolve objectName "").program shortLived).outcome
    (steadily (besideObject objectName) (.ok (some "x")) 0) (World.start 0)).map fun stored =>
      { stored.2 with clock := stored.2.clock + 1000 }

theorem runs_resolvedBefore {objectName : String} {w : World}
    (h : resolvedBefore objectName = some w) :
    Runs shortLived (objectKeys {("", objectName)}) 0 ⟨fun _ => none, w⟩ ∧
      Covered (besideObject objectName).walk w := by
  obtain ⟨⟨out, w⟩, ends, rfl⟩ := Option.map_eq_some_iff.mp h
  have names : (Request.resolve objectName "").Names (objectKeys {("", objectName)}) :=
    ⟨("", objectName), rfl, rfl⟩
  have empty : Covered (besideObject objectName).walk (World.start 0) := by
    rintro path - (there | ⟨_, impossible, -⟩)
    · exact nomatch there
    · exact nomatch impossible
  have resolved := runs_performs names .refl (performs_transcript steadily_follows empty ends)
  have covered := outcome_keeps (fun op w r w' covered answers =>
    (steadily_follows op w r w' covered answers).2) empty ends
  have later : w.clock ≤ w.clock + 1000 := by norm_num
  exact ⟨resolved.tail (.drift ⟨_, later, rfl⟩), covered_same covered rfl rfl⟩

/-- A document that was accessed at the beginning. -/
def isOld : Option File → Bool
  | some (.json document) =>
      match accessedAt document with
      | .ok accessed => accessed = 0
      | .error _ => false
  | _ => false

/-- The clock of a purge may only say that it is late. -/
def isLate : Effect.Event CacheCalls Exc → Bool
  | ⟨.now, .ok now⟩ =>
      let now : ℚ := now
      now = 1000
  | _ => true

def purged (objectName : String) (w : World) : Option (Except Exc Unit × World) :=
  (purgeExpired shortLived).outcome (steadily (besideObject objectName) (.ok (some "x")) 0) w

/-- An entry below a directory is found under another key, and stays for ever. -/
theorem nested_unmaintained : ∃ w,
    Runs shortLived (objectKeys {("", "a/b")}) 0 ⟨fun _ => none, w⟩ ∧
      keyFromMetaPath (metaPath (cacheKey "" "a/b")) = some "b" ∧
      ¬ Maintained shortLived (objectKeys {("", "a/b")}) w := by
  let key := cacheKey "" "a/b"
  let script := steadily (besideObject "a/b") (.ok (some "x")) 0
  have facts : (resolvedBefore "a/b").bind (fun w => (purged "a/b" w).map fun end_ =>
      (isOld (w.files (metaPath key)), w.free 0 key, (end_.2.files (metaPath key)).isSome,
        ((purgeExpired shortLived).transcript script w).all isLate)) =
      some (true, true, true, true) := by decide +kernel
  obtain ⟨w, resolved, facts⟩ := Option.bind_eq_some_iff.mp facts
  obtain ⟨⟨out, w'⟩, ends, facts⟩ := Option.map_eq_some_iff.mp facts
  simp only [Prod.mk.injEq] at facts
  obtain ⟨old, free, left, late⟩ := facts
  obtain ⟨run, covered⟩ := runs_resolvedBefore resolved
  refine ⟨w, run, by decide +kernel, fun maintained => ?_⟩
  obtain ⟨-, now, timed, expired⟩ := maintained.purges 0 _ out w'
    (performs_transcript steadily_follows covered ends)
  have hnow : now = 1000 := of_decide_eq_true (List.all_eq_true.mp late _ timed)
  unfold isOld at old
  split at old
  · next document there =>
    split at old
    · next accessed dated =>
      have gone := expired.gone key ⟨_, rfl, rfl⟩ document accessed there dated
        (by rw [hnow, of_decide_eq_true old]; norm_num [shortLived]) free (metaPath key) (.inr rfl)
      rw [gone] at left
      exact nomatch left
    · exact nomatch old
  · exact nomatch old

/-- An entry of the root itself is found again. -/
theorem flat_maintained : ∃ w, Runs shortLived (objectKeys {("", "a")}) 0 ⟨fun _ => none, w⟩ ∧
    isOld (w.files (metaPath (cacheKey "" "a"))) = true ∧
      Maintained shortLived (objectKeys {("", "a")}) w := by
  have facts : (resolvedBefore "a").map (fun w => isOld (w.files (metaPath (cacheKey "" "a")))) =
      some true := by decide +kernel
  obtain ⟨w, resolved, old⟩ := Option.map_eq_some_iff.mp facts
  have run := (runs_resolvedBefore resolved).1
  refine ⟨w, run, old, maintained_of_runs run ?_ ?_ rfl rfl⟩
  · rintro _ rfl
    decide
  · rintro _ rfl
    decide

end AcojWorker.FileCache
