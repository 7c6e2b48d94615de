import AcojWorker.Cache.PlainKeys
import AcojWorker.Cache.Steady
import AcojWorker.Data.Quota

/-!
# What an eviction removes

The cache holds entries that are addressed by their hash, each with its meta file. An eviction
finds them all, whatever the order of the walk, leaves out those in the grace period, and goes
through the rest from the oldest on: an entry whose lock is taken is skipped, and the loop ends
as soon as enough has been freed.
-/

namespace AcojWorker.FileCache

open Python Effect Quota

/-! ### The entries of a cache -/

/-- The size as a number. -/
def Entry.bytes (e : Entry) : ℚ :=
  match e.size.number with
  | .ok q => q
  | .error _ => 0

/-- The access time as a number. -/
def Entry.accessed (e : Entry) : ℚ :=
  match e.lastAccessed.number with
  | .ok q => q
  | .error _ => 0

def recordedTotal (entries : List Entry) : ℚ := (entries.map Entry.bytes).sum

/-- A meta file records the size and the access time of an entry, as numbers. -/
structure Records (document : Value) (e : Entry) : Prop where
  size : document.get "size_bytes" (.int 0) = .ok e.size
  sized : e.size.number = .ok e.bytes
  lastAccessed : document.get "last_accessed_at" (.int 0) = .ok e.lastAccessed
  dated : e.lastAccessed.number = .ok e.accessed

/-- The files of the cache are those of the entries; hexadecimal digests are plain keys. -/
structure Holds (w : World) (entries : List Entry) : Prop where
  hashed : ∀ e ∈ entries, ∃ digest, e.key = hashKey digest
  plain : ∀ e ∈ entries, Plain e.key
  nodup : (entries.map Entry.key).Nodup
  content : ∀ e ∈ entries, ∃ content, w.files (dataPath e.key) = some (.data content)
  recorded : ∀ e ∈ entries, ∃ document,
    w.files (metaPath e.key) = some (.json document) ∧ Records document e
  only : ∀ path file, w.files path = some file → ∃ e ∈ entries, Owns e.key path

/-- The entry that a meta file belongs to. -/
def entryAt (entries : List Entry) (path : Path) : Option Entry :=
  entries.find? fun e => metaPath e.key = path

section Holds

-- The paths of a key are not to be computed when one is substituted.
attribute [local irreducible] FileCache.dataPath FileCache.metaPath

variable {w : World} {entries : List Entry} (holds : Holds w entries)

include holds

theorem Holds.entryAt_metaPath {e : Entry} (mem : e ∈ entries) :
    entryAt entries (metaPath e.key) = some e := by
  cases found : entryAt entries (metaPath e.key) with
  | none =>
      have missed := List.find?_eq_none.mp found e mem
      exact absurd (decide_eq_true rfl) missed
  | some e' =>
      have same : metaPath e'.key = metaPath e.key := by simpa using List.find?_some found
      have mem' := List.mem_of_find?_eq_some found
      have key := (holds.plain e mem).owner (holds.plain e' mem') (.inr rfl) (.inr same.symm)
      rw [List.inj_on_of_nodup_map holds.nodup mem' mem key]

/-- A file that the walk finds is the meta file of an entry, or no file. -/
theorem Holds.listed {path : Path} (listed : isMetaFile path = true) :
    (∃ e ∈ entries, path = metaPath e.key ∧ entryAt entries path = some e ∧
      ∃ document, w.files path = some (.json document) ∧ Records document e) ∨
    entryAt entries path = none ∧ w.files path = none := by
  cases there : w.files path with
  | none =>
      right
      refine ⟨?_, rfl⟩
      rw [entryAt, List.find?_eq_none]
      intro e mem same
      obtain ⟨document, here, -⟩ := holds.recorded e mem
      rw [of_decide_eq_true same, there] at here
      exact nomatch here
  | some file =>
      left
      obtain ⟨e, mem, owns⟩ := holds.only path file there
      obtain rfl := ((holds.plain e mem).isMetaFile owns).mp listed
      obtain ⟨document, here, records⟩ := holds.recorded e mem
      exact ⟨e, mem, rfl, holds.entryAt_metaPath mem, document, there ▸ here, records⟩

/-- The walk finds every entry once. -/
theorem Holds.found {paths : List Path} (nodup : paths.Nodup)
    (listed : ∀ path, path ∈ paths ↔ isMetaFile path ∧ w.Occupied path) :
    (paths.filterMap (entryAt entries)).Perm entries := by
  have once : ∀ path path' e, e ∈ entryAt entries path → e ∈ entryAt entries path' →
      path = path' := by
    intro path path' e here here'
    have same : metaPath e.key = path := by simpa using List.find?_some here
    have same' : metaPath e.key = path' := by simpa using List.find?_some here'
    exact same.symm.trans same'
  rw [List.perm_ext_iff_of_nodup (nodup.filterMap once) holds.nodup.of_map]
  intro e
  rw [List.mem_filterMap]
  constructor
  · rintro ⟨path, _, found⟩
    exact List.mem_of_find?_eq_some found
  · intro mem
    obtain ⟨document, there, -⟩ := holds.recorded e mem
    refine ⟨metaPath e.key, (listed _).mpr ⟨isMetaFile_metaPath e.key, .inl ?_⟩,
      holds.entryAt_metaPath mem⟩
    rw [there]
    rfl

omit holds in
theorem Holds.still {t : Nat} {w' : World} (holds : Holds w entries) (still : Still t w w') :
    Holds w' entries :=
  { holds with
    content := by
      rw [still.files]
      exact holds.content
    recorded := by
      rw [still.files]
      exact holds.recorded
    only := by
      rw [still.files]
      exact holds.only }

end Holds

/-! ### The statistics -/

section Statistics

attribute [local irreducible] FileCache.dataPath FileCache.metaPath

variable {t : Nat} {w w' : World} {entries : List Entry} {τ : Trace CacheCalls Exc}
  (holds : Holds w entries)

include holds

/-- A loop over the meta files folds over the entries, in some order. -/
theorem performs_walk {α : Type} {f : α → Path → Caching α} {k : α → Path → Value → Caching α}
    {g : α → Entry → α} {init : α} {out : Except Exc α}
    (reads : ∀ a path, f a path =
      Program.tryCatch (call (.loadJson path) >>= k a path) fun _ => pure a)
    (records : ∀ a document, ∀ e ∈ entries, Records document e →
      k a (metaPath e.key) document = .ret (g a e))
    (h : (do
      let found : Bool ← call .rootExists
      if found then do
        let paths : List Path ← call .metaFiles
        paths.foldlM f init
      else return init : Caching α).Performs steady t w τ out w') :
    (∃ found : List Entry, found.Perm entries ∧ out = .ok (found.foldl g init)) ∧ Still t w w' := by
  obtain ⟨_, τ₁, τ₂, w₁, asked, rest, rfl⟩ :=
    performs_step h fun _ _ _ raised => nomatch (performs_rootExists raised).1
  obtain ⟨⟨⟩, first⟩ := performs_rootExists asked
  obtain ⟨paths, τ₃, τ₄, w₂, walked, loop, rfl⟩ := performs_step rest fun _ _ _ raised => by
    obtain ⟨_, _, impossible, _⟩ := performs_metaFiles raised
    exact nomatch impossible
  obtain ⟨second, _, ⟨⟩, nodup, listed⟩ := performs_metaFiles walked
  have listed' : ∀ path, path ∈ paths ↔ isMetaFile path ∧ w.Occupied path := by
    intro path
    rw [listed path, first.occupied path]
  suffices round : ∀ a, ∀ path ∈ paths, ∀ s τ out s', Still t w s →
      (f a path).Performs steady t s τ out s' →
      out = .ok (((entryAt entries path).map (g a)).getD a) ∧ Still t w s' by
    obtain ⟨rfl, still⟩ := performs_foldlM (fun _ _ before run => (still_drift run).before before)
      round (second.before first) loop
    refine ⟨⟨_, holds.found nodup listed', congrArg _ ?_⟩, still⟩
    rw [List.foldl_filterMap]
    congr
    funext a path
    cases entryAt entries path <;> rfl
  intro a path mem s τ out s' before h
  rw [reads] at h
  have loads : ∀ {τ : Trace CacheCalls Exc} {out : Except Exc Value} {s' : World},
      (call (.loadJson path)).Performs steady t s τ out s' → Still t w s' ∧
        (∀ document, w.files path = some (.json document) → out = .ok document) ∧
        (w.files path = none → ∃ e, out = .error e) := by
    intro τ out s' h
    obtain ⟨still, there, absent⟩ := performs_loadJson h
    rw [before.files] at there absent
    exact ⟨still.before before, there, fun none => (absent none).imp fun _ e => e.1⟩
  rcases holds.listed ((listed' path).mp mem).1 with
    ⟨e, memEntry, rfl, found, document, there, recorded⟩ | ⟨missing, absent⟩
  · have body : ∀ {τ out s'}, (call (.loadJson (metaPath e.key)) >>= k a (metaPath e.key)).Performs
        steady t s τ out s' → out = .ok (g a e) ∧ Still t w s' := by
      intro τ out s' h
      obtain ⟨v, τ₁, τ₂, s₁, loaded, rest, rfl⟩ := performs_step h fun _ _ _ raised =>
        nomatch (loads raised).2.1 document there
      obtain ⟨still, read, -⟩ := loads loaded
      cases read document there
      rw [records a document e memEntry recorded] at rest
      obtain ⟨-, rfl, run⟩ := performs_ret rest
      exact ⟨rfl, (still_drift run).before still⟩
    rw [found]
    obtain ⟨_, done, rfl⟩ | ⟨e, _, _, _, raised, -, -⟩ := performs_tryCatch h
    · exact body done
    · exact nomatch (body raised).1
  · rw [missing]
    obtain ⟨_, done, rfl⟩ | ⟨e, τ₁, τ₂, s₁, raised, handled, rfl⟩ := performs_tryCatch h
    · obtain ⟨e, _, impossible⟩ | ⟨v, τ₁, τ₂, s₁, loaded, -, rfl⟩ := performs_bind done
      · exact nomatch impossible
      · obtain ⟨_, impossible⟩ := (loads loaded).2.2 absent
        exact nomatch impossible
    · obtain ⟨-, rfl, run⟩ := performs_ret handled
      refine ⟨rfl, (still_drift run).before ?_⟩
      obtain ⟨e', failed, ⟨⟩⟩ | ⟨v, τ₃, τ₄, s₂, loaded, -, rfl⟩ := performs_bind raised
      · exact (loads failed).1
      · obtain ⟨_, impossible⟩ := (loads loaded).2.2 absent
        exact nomatch impossible

theorem performs_calculateTotalSize {out : Except Exc ℚ}
    (h : calculateTotalSize.Performs steady t w τ out w') :
    out = .ok (recordedTotal entries) ∧ Still t w w' := by
  obtain ⟨⟨found, perm, rfl⟩, still⟩ := performs_walk holds (g := fun total e => total + e.bytes)
    (fun _ _ => rfl) (fun total document e _ records => by
      rw [records.size, Program.lift_ok_bind, records.sized]
      rfl) h
  refine ⟨congrArg _ ?_, still⟩
  rw [← List.foldl_map, ← List.sum_eq_foldl, recordedTotal]
  exact (perm.map _).sum_eq

theorem performs_collectStats {out : Except Exc (List Entry)}
    (h : collectStats.Performs steady t w τ out w') :
    (∃ found : List Entry, found.Perm entries ∧ out = .ok found) ∧ Still t w w' := by
  obtain ⟨⟨found, perm, rfl⟩, still⟩ := performs_walk holds (g := fun entries e => entries ++ [e])
    (fun _ _ => rfl) (fun found document e mem records => by
      rw [(holds.plain e mem).decoded]
      simp only [ne_eq, (holds.plain e mem).ne_empty, not_false_eq_true, if_true, records.size,
        records.lastAccessed, Program.lift_ok_bind]
      rfl) h
  have all : found.foldl (fun entries e => entries ++ [e]) [] = found := by
    rw [List.foldl_append_eq_append, List.nil_append]
    exact List.flatMap_singleton' found
  exact ⟨⟨found, perm, congrArg _ all⟩, still⟩

end Statistics

/-! ### Candidates -/

/-- Outside of the grace period, and its lock can be taken. -/
def evictable (t : Nat) (w : World) (now : ℚ) (e : Entry) : Bool :=
  w.free t e.key && decide (lruGracePeriod < now - e.accessed)

/-- The candidates are the entries outside of the grace period, oldest first. -/
theorem evictionCandidates_sorted (now : ℚ) {entries : List Entry}
    (dated : ∀ e ∈ entries, e.lastAccessed.number = .ok e.accessed) :
    ∃ candidates, evictionCandidates now entries = .ok candidates ∧
      candidates.Perm (entries.filter fun e => lruGracePeriod < now - e.accessed) ∧
      candidates.Pairwise fun e e' => e.accessed ≤ e'.accessed := by
  have read : (entries.mapM fun entry => do
      return (← entry.lastAccessed.number, entry) : Except Exc (List (ℚ × Entry))) =
      .ok (entries.map fun e => (e.accessed, e)) := by
    induction entries with
    | nil => rfl
    | cons e entries ih =>
        rw [List.mapM_cons, dated e (List.mem_cons_self ..),
          ih fun e he => dated e (List.mem_cons_of_mem _ he)]
        rfl
  rw [evictionCandidates, read]
  refine ⟨_, rfl, ?_, ?_⟩
  · refine ((List.perm_insertionSort _ _).map _).trans (.of_eq ?_)
    rw [List.filter_map, List.map_map]
    exact List.map_id _
  · rw [List.pairwise_map]
    refine (List.pairwise_insertionSort (fun x y : ℚ × Entry => x.1 ≤ y.1) _).imp_of_mem ?_
    intro x y hx hy le
    have own : ∀ x ∈ ((entries.map fun e => (e.accessed, e)).filter fun x =>
        lruGracePeriod < now - x.1).insertionSort fun x y => x.1 ≤ y.1, x.1 = x.2.accessed := by
      intro x hx
      obtain ⟨e, -, rfl⟩ := List.mem_map.mp (List.mem_filter.mp ((List.mem_insertionSort _).mp hx)).1
      rfl
    rw [← own x hx, ← own y hy]
    exact le

/-! ### The loop -/

section Loop

variable {t : Nat} {w w' : World} {τ : Trace CacheCalls Exc}

theorem performs_evictEntry {now freed : ℚ} {e : Entry} {out : Except Exc ℚ}
    (h : (evictEntry now freed e).Performs steady t w τ out w') :
    (w.free t e.key = true ∧ out = e.size.number.map (freed + ·) ∧ Loses t (Owns e.key) w w') ∨
      (w.free t e.key = false ∧ out = .ok freed ∧ Still t w w' ∧
        τ = [⟨.tryAcquire e.key (some now), .ok false⟩]) := by
  refine performs_tryKeyLock h fun w₁ τ out w₂ h => ?_
  obtain ⟨_, τ₁, τ₂, w₃, removed, rest, rfl⟩ :=
    performs_step h fun _ _ _ raised => nomatch (performs_removeEntry raised).1
  obtain ⟨⟨⟩, loses⟩ := performs_removeEntry removed
  cases hsize : e.size.number with
  | ok size =>
      rw [hsize, Program.lift_ok_bind] at rest
      obtain ⟨-, rfl, run⟩ := performs_ret rest
      exact ⟨rfl, loses.after (still_drift run)⟩
  | error exc =>
      rw [hsize, Program.lift_error_bind] at rest
      obtain ⟨-, rfl, run⟩ := performs_raise rest
      exact ⟨rfl, loses.after (still_drift run)⟩

/-- The entries that the loop removes. -/
def evicted (t : Nat) (w : World) (need : ℚ) (freed : ℚ) (candidates : List Entry) : List Entry :=
  takeUntil need Entry.bytes freed (candidates.filter fun e => w.free t e.key)

theorem performs_evictCandidates {need : Int} {now freed : ℚ} {candidates : List Entry}
    {out : Except Exc Unit} (sized : ∀ e ∈ candidates, e.size.number = .ok e.bytes)
    (h : (evictCandidates need now freed candidates).Performs steady t w τ out w') :
    out = .ok () ∧
      Loses t (fun path => ∃ e ∈ evicted t w need freed candidates, Owns e.key path) w w' := by
  induction candidates generalizing w freed τ with
  | nil =>
      obtain ⟨-, rfl, run⟩ := performs_ret h
      exact ⟨rfl, (still_drift run).congr fun path => iff_of_false nofun id⟩
  | cons e candidates ih =>
      rw [evictCandidates] at h
      by_cases enough : (need : ℚ) ≤ freed
      · rw [if_pos enough] at h
        obtain ⟨-, rfl, run⟩ := performs_ret h
        rw [evicted, takeUntil_of_le enough]
        exact ⟨rfl, (still_drift run).congr fun path => iff_of_false nofun id⟩
      · rw [if_neg enough] at h
        have size := sized e (List.mem_cons_self ..)
        have sized' := fun e he => sized e (List.mem_cons_of_mem _ he)
        obtain ⟨freed', τ₁, τ₂, w₁, first, rest, rfl⟩ := performs_step h fun _ _ _ raised => by
          rcases performs_evictEntry raised with ⟨-, impossible, -⟩ | ⟨-, impossible, -⟩
          · rw [size] at impossible
            exact nomatch impossible
          · exact nomatch impossible
        rcases performs_evictEntry first with ⟨free, same, loses⟩ | ⟨busy, same, still, -⟩
        · rw [size] at same
          cases same
          obtain ⟨rfl, later⟩ := ih sized' rest
          refine ⟨rfl, (loses.trans later).congr fun path => ?_⟩
          have others : evicted t w need freed (e :: candidates) =
              e :: evicted t w₁ need (freed + e.bytes) candidates := by
            simp only [evicted, loses.free]
            rw [List.filter_cons_of_pos (p := fun e : Entry => w.free t e.key) free,
              takeUntil_cons enough]
          simp only [others, List.mem_cons, or_and_right, exists_or, exists_eq_left]
        · cases same
          obtain ⟨rfl, later⟩ := ih sized' rest
          refine ⟨rfl, (later.before still).congr fun path => ?_⟩
          have others : evicted t w need freed (e :: candidates) =
              evicted t w₁ need freed candidates := by
            simp only [evicted, still.free]
            rw [List.filter_cons_of_neg (by simp [busy])]
          rw [others]

end Loop

/-! ### Evictions -/

section Evictions

variable {t : Nat} {w w' : World} {entries : List Entry} {τ : Trace CacheCalls Exc}

theorem performs_evictLru (holds : Holds w entries) {need : Int} {since : Option ℚ}
    {out : Except Exc Unit} (h : (evictLru need since).Performs steady t w τ out w') :
    out = .ok () ∧ ∃ now candidates, w.clock ≤ now ∧ now ≤ w'.clock ∧
      candidates.Perm (entries.filter fun e => lruGracePeriod < now - e.accessed) ∧
      candidates.Pairwise (fun e e' => e.accessed ≤ e'.accessed) ∧
      Loses t (fun path => ∃ e ∈ evicted t w need 0 candidates, Owns e.key path) w w' := by
  obtain ⟨found, τ₁, τ₂, w₁, collected, rest, rfl⟩ := performs_step h fun _ _ _ raised => by
    obtain ⟨⟨_, _, impossible⟩, _⟩ := performs_collectStats holds raised
    exact nomatch impossible
  obtain ⟨⟨_, perm, ⟨⟩⟩, first⟩ := performs_collectStats holds collected
  obtain ⟨now, τ₃, τ₄, w₂, timed, loop, rfl⟩ := performs_step rest fun _ _ _ raised => by
    obtain ⟨_, _, impossible, _⟩ := performs_evictionTime raised
    exact nomatch impossible
  obtain ⟨second, _, ⟨⟩, after, before⟩ := performs_evictionTime timed
  have records : ∀ e ∈ entries, e.size.number = .ok e.bytes ∧
      e.lastAccessed.number = .ok e.accessed := by
    intro e mem
    obtain ⟨_, _, recorded⟩ := holds.recorded e mem
    exact ⟨recorded.sized, recorded.dated⟩
  obtain ⟨candidates, sorted, perm', oldest⟩ := evictionCandidates_sorted now
    fun e mem => (records e (perm.subset mem)).2
  rw [sorted, Program.lift_ok_bind] at loop
  have mem : ∀ e ∈ candidates, e ∈ entries := fun e he =>
    perm.subset (List.mem_filter.mp (perm'.subset he)).1
  obtain ⟨rfl, loses⟩ := performs_evictCandidates (fun e he => (records e (mem e he)).1) loop
  refine ⟨rfl, now, candidates, first.clock.trans after, before.trans loses.clock,
    perm'.trans (perm.filter _), oldest, ?_⟩
  have still := second.before first
  have same : evicted t w need 0 candidates = evicted t w₂ need 0 candidates := by
    simp only [evicted, still.free]
  rw [same]
  exact loses.before still

theorem lt_truncate_add_one (q : ℚ) : q < Value.truncate q + 1 := by
  rw [Value.truncate]
  split
  · exact Int.lt_floor_add_one q
  · exact lt_of_le_of_lt (Int.le_ceil q) (lt_add_one _)

/-- A shortest sufficient prefix of the entries that can be evicted, from the oldest on, is
removed, or all of them if they do not suffice. -/
structure EvictsOldest (t : Nat) (limit : Int) (w w' : World) (entries : List Entry) (now : ℚ)
    (candidates removed : List Entry) : Prop where
  evictable : candidates.Perm (entries.filter (evictable t w now))
  oldest : candidates.Pairwise fun e e' => e.accessed ≤ e'.accessed
  taken : removed <+: candidates
  gone : ∀ e ∈ removed, ∀ path, Owns e.key path → w'.files path = none
  kept : ∀ e ∈ entries, e ∉ removed → ∀ path, Owns e.key path → w'.files path = w.files path
  spared : ∀ e ∈ entries, (w.free t e.key = false ∨ now - e.accessed ≤ lruGracePeriod) →
    ∀ path, Owns e.key path → w'.files path = w.files path
  enough : recordedTotal entries - recordedTotal removed < evictTargetRatio * limit + 1 ∨
    removed = candidates
  minimal : removed ≠ [] → recordedTotal removed.dropLast <
    Value.truncate (recordedTotal entries - limit * evictTargetRatio)

theorem evictsOldest_of_loses (holds : Holds w entries) {limit : Int} {now : ℚ}
    {candidates removed : List Entry}
    (perm : candidates.Perm (entries.filter (evictable t w now)))
    (oldest : candidates.Pairwise fun e e' => e.accessed ≤ e'.accessed)
    (taken : removed = takeUntil
      (Value.truncate (recordedTotal entries - limit * evictTargetRatio) : ℚ) Entry.bytes 0
      candidates)
    (loses : Loses t (fun path => ∃ e ∈ removed, Owns e.key path) w w') :
    EvictsOldest t limit w w' entries now candidates removed := by
  have first : removed <+: candidates := taken ▸ takeUntil_prefix
  have able : ∀ e ∈ removed, e ∈ entries ∧ evictable t w now e = true :=
    fun e he => List.mem_filter.mp (perm.subset (first.subset he))
  have kept : ∀ e ∈ entries, e ∉ removed → ∀ path, Owns e.key path →
      w'.files path = w.files path := by
    intro e mem left path owns
    refine loses.kept path ?_
    rintro ⟨e', gone, owns'⟩
    have mem' := (able e' gone).1
    have key := (holds.plain e mem).owner (holds.plain e' mem') owns owns'
    rw [List.inj_on_of_nodup_map holds.nodup mem' mem key] at gone
    exact left gone
  refine ⟨perm, oldest, first, fun e he path owns => loses.lost path ⟨e, he, owns⟩, kept,
    fun e mem safe => kept e mem fun gone => ?_, ?_, fun some => ?_⟩
  · have := (able e gone).2
    rw [evictable, Bool.and_eq_true, decide_eq_true_iff] at this
    rcases safe with locked | recent
    · exact absurd this.1 (by simp [locked])
    · exact absurd this.2 (not_lt.mpr recent)
  · rw [taken]
    refine takeUntil_enough.imp (fun enough => ?_) id
    have close := lt_truncate_add_one (recordedTotal entries - limit * evictTargetRatio)
    rw [zero_add] at enough
    rw [recordedTotal] at enough close ⊢
    rw [recordedTotal]
    linarith
  · rw [taken] at some ⊢
    have short := takeUntil_minimal some
    rwa [zero_add] at short

/-- Nothing is removed below the limit; above it, the oldest entries are. -/
theorem oldest_evicted {settings : Settings} (holds : Holds w entries) {out : Except Exc Unit}
    (h : (evictLruIfNeeded settings 0 none).Performs steady t w τ out w') :
    out = .ok () ∧
      (recordedTotal entries ≤ settings.maxBytes → w'.files = w.files) ∧
      (settings.maxBytes < recordedTotal entries → ∃ now candidates removed,
        w.clock ≤ now ∧ now ≤ w'.clock ∧
          EvictsOldest t settings.maxBytes w w' entries now candidates removed) := by
  obtain ⟨total, τ₁, τ₂, w₁, summed, rest, rfl⟩ := performs_step h fun _ _ _ raised =>
    nomatch (performs_calculateTotalSize holds raised).1
  obtain ⟨⟨⟩, still⟩ := performs_calculateTotalSize holds summed
  rw [Int.cast_zero, add_zero] at rest
  by_cases small : recordedTotal entries ≤ settings.maxBytes
  · rw [if_pos small] at rest
    obtain ⟨-, rfl, run⟩ := performs_ret rest
    exact ⟨rfl, fun _ => Still.files ((still_drift run).before still),
      fun large => absurd small (not_le.mpr large)⟩
  rw [if_neg small] at rest
  obtain ⟨rfl, now, candidates, after, before, perm, oldest, loses⟩ :=
    performs_evictLru (holds.still still) rest
  have same : ∀ need, evicted t w₁ need 0 candidates = evicted t w need 0 candidates := by
    intro need
    simp only [evicted, still.free]
  rw [same] at loses
  have able : (candidates.filter fun e => w.free t e.key).Perm
      (entries.filter (evictable t w now)) := by
    refine (perm.filter _).trans (.of_eq ?_)
    rw [List.filter_filter]
    rfl
  exact ⟨rfl, fun le => absurd le small, fun _ => ⟨now, _, _, still.clock.trans after, before,
    evictsOldest_of_loses holds able (oldest.filter _) rfl (loses.before still)⟩⟩

end Evictions

/-- Two entries of six bytes, one of them accessed before the other. -/
def twoEntries : List Entry :=
  [⟨hashKey "a", .int 6, .float 0⟩, ⟨hashKey "b", .int 6, .float 10⟩]

def twoFiles : List (Path × File) :=
  twoEntries.flatMap fun e =>
    [(dataPath e.key, .data [1, 2, 3, 4, 5, 6]),
      (metaPath e.key, .json (.dict [("size_bytes", e.size), ("last_accessed_at", e.lastAccessed)]))]

/-- The two entries on disk, at some time. -/
def twoStored (clock : ℚ) : World :=
  { World.start clock with files := fun path => twoFiles.lookup path }

theorem holds_twoEntries (clock : ℚ) : Holds (twoStored clock) twoEntries where
  hashed e mem := by
    obtain rfl | rfl : e = _ ∨ e = _ := by simpa [twoEntries] using mem
    · exact ⟨"a", rfl⟩
    · exact ⟨"b", rfl⟩
  plain e mem := by
    obtain rfl | rfl : e = _ ∨ e = _ := by simpa [twoEntries] using mem
    · exact ⟨⟨by decide, by decide⟩, by decide, by decide⟩
    · exact ⟨⟨by decide, by decide⟩, by decide, by decide⟩
  nodup := by decide +kernel
  content e mem := by
    obtain rfl | rfl : e = _ ∨ e = _ := by simpa [twoEntries] using mem
    · exact ⟨_, rfl⟩
    · exact ⟨_, rfl⟩
  recorded e mem := by
    obtain rfl | rfl : e = _ ∨ e = _ := by simpa [twoEntries] using mem
    · exact ⟨_, rfl, rfl, rfl, rfl, rfl⟩
    · exact ⟨_, rfl, rfl, rfl, rfl, rfl⟩
  only path file there := by
    obtain ⟨before, after, split, -⟩ := List.lookup_eq_some_iff.mp there
    have mem : (path, file) ∈ twoFiles := split ▸ List.mem_append_right _ (List.mem_cons_self ..)
    obtain ⟨e, he, own⟩ := List.mem_flatMap.mp mem
    rw [List.mem_pair] at own
    exact ⟨e, he, own.imp (congrArg Prod.fst) (congrArg Prod.fst)⟩

/-- Where the walk looks in the cache of the two entries, and what is not asked. -/
def besideTwo : Surroundings := ⟨twoFiles.map Prod.fst, fun _ => [], ""⟩

theorem covered_twoStored (clock : ℚ) : Covered besideTwo.walk (twoStored clock) := by
  rintro path - (there | ⟨_, impossible, -⟩)
  · obtain ⟨file, there⟩ := Option.isSome_iff_exists.mp there
    obtain ⟨before, after, split, -⟩ := List.lookup_eq_some_iff.mp there
    rw [besideTwo, split, List.map_append]
    exact List.mem_append_right _ (List.mem_cons_self ..)
  · exact nomatch impossible

/-- With a limit of ten bytes one of the two entries is evicted. -/
theorem oldest_evicted_two : ∃ w' now candidates removed,
    EvictsOldest 0 10 (twoStored 100) w' twoEntries now candidates removed := by
  obtain ⟨⟨out, w'⟩, ends⟩ : ∃ end_, (evictLruIfNeeded ⟨true, 10, 60, fun _ => ""⟩ 0 none).outcome
      (steadily besideTwo (.ok none) 0) (twoStored 100) = some end_ :=
    Option.isSome_iff_exists.mp (by decide +kernel)
  have performs := performs_transcript steadily_follows (covered_twoStored 100) ends
  obtain ⟨-, -, evicts⟩ := oldest_evicted (holds_twoEntries 100) performs
  obtain ⟨now, candidates, removed, -, -, evicts⟩ := evicts (by decide +kernel)
  exact ⟨w', now, candidates, removed, evicts⟩

end AcojWorker.FileCache
