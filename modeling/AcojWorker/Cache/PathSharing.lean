import AcojWorker.Cache.Paths

/-!
# Objects that share a local file

The files of a key are named after the raw object name or hash. Two objects keep out of each
other's way exactly if their names end in a proper segment, and neither data file lies at or
below the data file of the other or the meta file named after it. Without a cache, slashes and
underscores are the same.
-/

namespace AcojWorker.FileCache

/-- Neither path is the other or one of its ancestors. -/
def Apart (p q : Path) : Prop := ¬ p <+: q ∧ ¬ q <+: p

instance (p q : Path) : Decidable (Apart p q) := inferInstanceAs (Decidable (_ ∧ _))

section Siblings

variable {A B : Path} {a b suffix : String}

theorem apart_siblings (apart : a ≠ b) : Apart (A ++ [a]) (A ++ [b]) := by
  have lengths : (A ++ [a]).length = (A ++ [b]).length := by simp
  constructor
  · intro below
    exact apart (by simpa using below.eq_of_length lengths)
  · intro below
    exact apart (by simpa using (below.eq_of_length lengths.symm).symm)

theorem below_of_concat_prefix {p : Path} (below : p <+: B ++ [b]) :
    p = B ++ [b] ∨ ∀ c, p <+: B ++ [c] :=
  (List.prefix_concat_iff.mp below).imp_right fun h _ => h.trans (List.prefix_append ..)

theorem append_suffix_ne (some : suffix ≠ "") : a ≠ a ++ suffix := by
  intro same
  have chars := congrArg String.toList same
  rw [String.toList_append, List.self_eq_append_right] at chars
  exact some (String.toList_inj.mp (by simpa using chars))

theorem concat_suffix_inj (same : A ++ [a ++ suffix] = B ++ [b ++ suffix]) :
    A ++ [a] = B ++ [b] := by
  obtain ⟨rfl, last⟩ := List.append_inj' same rfl
  have chars := congrArg String.toList (List.singleton_inj.mp last)
  rw [String.toList_append, String.toList_append, List.append_left_inj] at chars
  rw [String.toList_inj.mp chars]

/-- Of all the ways in which two pairs of siblings may meet, four decide. -/
theorem pairwise_apart_iff (some : suffix ≠ "") :
    [A ++ [a], A ++ [a ++ suffix], B ++ [b], B ++ [b ++ suffix]].Pairwise Apart ↔
      (¬ A ++ [a] <+: B ++ [b] ∧ ¬ A ++ [a ++ suffix] <+: B ++ [b]) ∧
        (¬ B ++ [b] <+: A ++ [a] ∧ ¬ B ++ [b ++ suffix] <+: A ++ [a]) := by
  simp only [List.pairwise_cons, List.mem_cons, List.not_mem_nil, or_false, forall_eq_or_imp,
    forall_eq, false_implies, implies_true, List.Pairwise.nil, and_true]
  constructor
  · rintro ⟨⟨_, dataData, dataMeta⟩, ⟨metaData, _⟩, _⟩
    exact ⟨⟨dataData.1, metaData.1⟩, dataData.2, dataMeta.2⟩
  · rintro ⟨⟨dataData, metaData⟩, dataData', metaData'⟩
    have dataMeta : ¬ A ++ [a] <+: B ++ [b ++ suffix] := by
      intro below
      rcases below_of_concat_prefix below with same | below
      · exact metaData' (same ▸ List.prefix_refl _)
      · exact dataData (below b)
    have dataMeta' : ¬ B ++ [b] <+: A ++ [a ++ suffix] := by
      intro below
      rcases below_of_concat_prefix below with same | below
      · exact metaData (same ▸ List.prefix_refl _)
      · exact dataData' (below a)
    have metaMeta : Apart (A ++ [a ++ suffix]) (B ++ [b ++ suffix]) := by
      constructor
      · intro below
        rcases below_of_concat_prefix below with same | below
        · exact dataData (concat_suffix_inj same ▸ List.prefix_refl _)
        · exact metaData (below b)
      · intro below
        rcases below_of_concat_prefix below with same | below
        · exact dataData' (concat_suffix_inj same ▸ List.prefix_refl _)
        · exact metaData' (below a)
    exact ⟨⟨apart_siblings (append_suffix_ne some), ⟨dataData, dataData'⟩, dataMeta, metaData'⟩,
      ⟨⟨metaData, dataMeta'⟩, metaMeta⟩, apart_siblings (append_suffix_ne some)⟩

theorem pathText_suffix : pathText (A ++ [a ++ suffix]) = pathText (A ++ [a]) ++ suffix := by
  apply String.toList_inj.mp
  simp only [pathText, List.map_append, List.map_singleton, String.toList_ofList,
    String.toList_append]
  by_cases empty : A.map String.toList = []
  · rw [empty]
    rfl
  · rw [joinSlashes_append empty (List.cons_ne_nil _ _), joinSlashes_append empty (List.cons_ne_nil _ _)]
    simp [joinSlashes]

end Siblings

/-! ### The files of a key -/

/-- Paths as they are written, or where they lead in the directory named by a text. -/
inductive Reading where
  | written
  | resolved (root : String)

def Reading.place : Reading → Path → Path
  | .written, path => path
  | .resolved root, path => resolveFrom (parts root) path

/-- Whether a segment names something in the directory before it. -/
def Reading.names : Reading → List Char → Bool
  | .written, segment => counts segment
  | .resolved _, segment => counts segment && segment ≠ ['.', '.']

section Places

variable (reading : Reading) (key : Key)

theorem place_concat (path : Path) {segment : List Char} (names : reading.names segment = true) :
    reading.place (path ++ [String.ofList segment]) =
      reading.place path ++ [String.ofList segment] := by
  cases reading with
  | written => rfl
  | resolved root =>
      refine resolveFrom_concat _ _ fun same => ?_
      have chars : segment = ['.', '.'] := by simpa using congrArg String.toList same
      simp [Reading.names, chars] at names

theorem clean_place {path : Path} (clean : Clean path) : Clean (reading.place path) := by
  cases reading with
  | written => exact clean
  | resolved root => exact clean_resolveFrom (clean_parts root) clean

/-- The directory a key puts its files in. -/
def Reading.dir : Path := reading.place (parts (keyPrefix key) ++ dirParts key)

theorem names_suffix (segment : List Char) :
    reading.names (segment ++ metaSuffix.toList) = true := by
  have kept := counts_suffixed segment
  cases reading with
  | written => exact kept
  | resolved root =>
      exact Bool.and_eq_true_iff.mpr ⟨kept, decide_eq_true (suffixed_ne segment (by decide))⟩

theorem place_metaPath :
    reading.place (metaPath key) =
      reading.dir key ++ [String.ofList (lastSegment key) ++ metaSuffix] := by
  have named := place_concat reading (parts (keyPrefix key) ++ dirParts key)
    (names_suffix reading (lastSegment key))
  rw [String.ofList_append, String.ofList_toList] at named
  rw [metaPath_eq, named]
  rfl

variable {reading key}

theorem counts_of_names {segment : List Char} (names : reading.names segment = true) :
    counts segment = true := by
  cases reading with
  | written => exact names
  | resolved root => exact (Bool.and_eq_true_iff.mp names).1

theorem place_dataPath (names : reading.names (lastSegment key) = true) :
    reading.place (dataPath key) = reading.dir key ++ [String.ofList (lastSegment key)] := by
  rw [dataPath, parts_eq key, if_pos (counts_of_names names), ← List.append_assoc, place_concat reading _ names]
  rfl

/-- The data file of a name without a proper end would be a directory above its meta file. -/
theorem place_dataPath_improper (improper : reading.names (lastSegment key) = false) :
    reading.place (dataPath key) <+: reading.dir key := by
  rw [dataPath, parts_eq key, ← List.append_assoc, Reading.dir]
  generalize parts (keyPrefix key) ++ dirParts key = path
  by_cases kept : counts (lastSegment key) = true
  · cases reading with
    | written =>
        have dropped : counts (lastSegment key) = false := improper
        rw [dropped] at kept
        cases kept
    | resolved root =>
        have up : lastSegment key = ['.', '.'] := by
          simpa [Reading.names, kept] using improper
        rw [if_pos kept, up]
        change resolveFrom _ (path ++ [".."]) <+: _
        rw [resolveFrom_append]
        exact List.dropLast_prefix _
  · simp only [if_neg kept, List.append_nil, List.prefix_refl]

end Places

theorem files_apart_iff (reading : Reading) (key₁ key₂ : Key) :
    [reading.place (dataPath key₁), reading.place (metaPath key₁), reading.place (dataPath key₂),
        reading.place (metaPath key₂)].Pairwise Apart ↔
      (reading.names (lastSegment key₁) = true ∧ reading.names (lastSegment key₂) = true) ∧
        (¬ reading.place (dataPath key₁) <+: reading.place (dataPath key₂) ∧
          ¬ reading.place (metaPath key₁) <+: reading.place (dataPath key₂)) ∧
        (¬ reading.place (dataPath key₂) <+: reading.place (dataPath key₁) ∧
          ¬ reading.place (metaPath key₂) <+: reading.place (dataPath key₁)) := by
  have own : ∀ key : Key, reading.names (lastSegment key) = false →
      ¬ Apart (reading.place (dataPath key)) (reading.place (metaPath key)) := by
    intro key improper apart
    refine apart.1 ?_
    rw [place_metaPath]
    exact (place_dataPath_improper improper).trans (List.prefix_append ..)
  by_cases names₁ : reading.names (lastSegment key₁) = true
  case neg =>
    refine iff_of_false (fun apart => ?_) fun h => names₁ h.1.1
    exact own key₁ (Bool.eq_false_iff.mpr names₁) (List.rel_of_pairwise_cons apart
      (List.mem_cons_self ..))
  by_cases names₂ : reading.names (lastSegment key₂) = true
  case neg =>
    refine iff_of_false (fun apart => ?_) fun h => names₂ h.1.2
    exact own key₂ (Bool.eq_false_iff.mpr names₂) (List.rel_of_pairwise_cons
      apart.of_cons.of_cons (List.mem_cons_self ..))
  rw [place_dataPath names₁, place_dataPath names₂, place_metaPath, place_metaPath,
    pairwise_apart_iff (by decide)]
  simp only [names₁, names₂, and_self, true_and]

/-! ### Keys as texts -/

/-- The parts of a key, or where they lead in the directory of its prefix. -/
def Reading.follow : Reading → Key → Path → Path
  | .written, _, path => path
  | .resolved root, key, path => resolveFrom (parts root) (parts (keyPrefix key) ++ path)

/-- A key without the segments that do not count; dot-dot segments go as well when it is
resolved. -/
def Reading.normal (reading : Reading) (key : Key) : String :=
  pathText (reading.follow key (parts key))

/-- A data file named by the second text lies at or below a file named by the first. -/
def Obstructs (x y : String) : Prop := AtOrBelow x y ∨ AtOrBelow (x ++ metaSuffix) y

instance (x y : String) : Decidable (Obstructs x y) := inferInstanceAs (Decidable (_ ∨ _))

section Sharded

variable {key key' : Key}

/-- The prefix of a key adds nothing to a comparison of keys. -/
theorem follow_prefix_iff (reading : Reading) (sharded : Sharded key) (sharded' : Sharded key')
    (suffix : String) :
    reading.place (parts (keyPrefix key) ++ parts (key ++ suffix)) <+: reading.place (dataPath key') ↔
      reading.follow key (parts (key ++ suffix)) <+: reading.follow key' (parts key') := by
  cases reading with
  | written =>
      change parts (keyPrefix key) ++ parts (key ++ suffix) <+: parts (keyPrefix key') ++ parts key' ↔
        parts (key ++ suffix) <+: parts key'
      rw [parts_keyPrefix sharded, parts_keyPrefix sharded', List.singleton_append,
        List.singleton_append, List.cons_prefix_cons, and_iff_right_iff_imp]
      intro below
      obtain ⟨part, path, h, first⟩ := parts_head sharded suffix
      obtain ⟨part', path', h', first'⟩ := parts_head sharded' ""
      rw [String.append_empty] at h'
      rw [h, h', List.cons_prefix_cons] at below
      rw [keyPrefix, keyPrefix, ← first, ← first', below.1]
  | resolved root => exact Iff.rfl

theorem follow_concat (reading : Reading) (key : Key) (path : Path) {segment : List Char}
    (names : reading.names segment = true) :
    reading.follow key (path ++ [String.ofList segment]) =
      reading.follow key path ++ [String.ofList segment] := by
  cases reading with
  | written => rfl
  | resolved root =>
      have concat := place_concat (.resolved root) (parts (keyPrefix key) ++ path) names
      rw [List.append_assoc] at concat
      exact concat

theorem clean_follow (reading : Reading) (key : Key) {path : Path} (clean : Clean path) :
    Clean (reading.follow key path) := by
  cases reading with
  | written => exact clean
  | resolved root =>
      exact clean_place (.resolved root) (List.forall_mem_append.mpr ⟨clean_parts _, clean⟩)

theorem follow_data {reading : Reading} (names : reading.names (lastSegment key) = true) :
    reading.follow key (parts key) =
      reading.follow key (dirParts key) ++ [String.ofList (lastSegment key)] := by
  rw [parts_eq key, if_pos (counts_of_names names), follow_concat reading key _ names]

theorem follow_meta (reading : Reading) (key : Key) :
    reading.follow key (parts (key ++ metaSuffix)) =
      reading.follow key (dirParts key) ++ [String.ofList (lastSegment key) ++ metaSuffix] := by
  have named := follow_concat reading key (dirParts key) (names_suffix reading (lastSegment key))
  rw [String.ofList_append, String.ofList_toList] at named
  rw [parts_suffixed, named]

/-- Obstruction is seen in the texts of the keys. -/
theorem obstructs_normal_iff {reading : Reading} (sharded : Sharded key) (sharded' : Sharded key')
    (names : reading.names (lastSegment key) = true)
    (names' : reading.names (lastSegment key') = true) :
    Obstructs (reading.normal key) (reading.normal key') ↔
      reading.place (dataPath key) <+: reading.place (dataPath key') ∨
        reading.place (metaPath key) <+: reading.place (dataPath key') := by
  have data := follow_prefix_iff reading sharded sharded' ""
  have document := follow_prefix_iff reading sharded sharded' metaSuffix
  rw [String.append_empty] at data
  change reading.place (metaPath key) <+: _ ↔ _ at document
  change reading.place (dataPath key) <+: _ ↔ _ at data
  have nonempty : ∀ (path : Path) (part : String), path ++ [part] ≠ [] := by simp
  have clean := follow_data names ▸ clean_follow reading key (clean_parts key)
  have clean' := follow_data names' ▸ clean_follow reading key' (clean_parts key')
  have cleanMeta := follow_meta reading key ▸ clean_follow reading key
    (clean_parts (key ++ metaSuffix))
  rw [data, document, Obstructs, Reading.normal, Reading.normal, follow_data names,
    follow_data names', follow_meta, prefix_iff_text (nonempty _ _) (nonempty _ _) clean clean',
    prefix_iff_text (nonempty _ _) (nonempty _ _) cleanMeta clean', pathText_suffix]

end Sharded

/-! ### Downloads without a cache -/

def underscored (c : Char) : Char := if c = '/' then '_' else c

/-- Where `_download_direct` puts an object, below its directory. -/
def directPath (objectName : String) : Path := parts (objectName.map underscored)

/-- Characters that are the same once slashes are underscores. -/
def SameUnderscored (c d : Char) : Prop := c = d ∨ c ∈ ['/', '_'] ∧ d ∈ ['/', '_']

instance (c d : Char) : Decidable (SameUnderscored c d) := inferInstanceAs (Decidable (_ ∨ _))

/-- Names that differ in slashes and underscores only, or that name no file at all. -/
def Confusable (x y : String) : Prop :=
  List.Forall₂ SameUnderscored x.toList y.toList ∨ x ∈ ["", "."] ∧ y ∈ ["", "."]

theorem underscored_eq_iff {c d : Char} : underscored c = underscored d ↔ SameUnderscored c d := by
  simp only [underscored, SameUnderscored, List.mem_cons, List.not_mem_nil, or_false]
  grind

theorem underscored_eq_dot {c : Char} : underscored c = '.' ↔ c = '.' := by
  rw [underscored]
  grind

theorem counts_underscored (objectName : String) :
    counts (objectName.map underscored).toList = true ↔ objectName ∉ ["", "."] := by
  rw [String.toList_map, counts, decide_eq_true_iff, List.mem_cons, List.mem_singleton, not_or]
  refine and_congr ?_ ?_
  · rw [ne_eq, List.map_eq_nil_iff, String.toList_eq_nil_iff]
  · rw [ne_eq, List.map_eq_singleton_iff, ← String.toList_inj]
    refine not_congr ⟨?_, fun h => ⟨'.', h, rfl⟩⟩
    rintro ⟨c, h, dot⟩
    rw [h, underscored_eq_dot.mp dot]
    rfl

theorem directPath_eq (objectName : String) :
    directPath objectName =
      if objectName ∈ ["", "."] then [] else [objectName.map underscored] := by
  have noSlash : '/' ∉ (objectName.map underscored).toList := by
    rw [String.toList_map]
    intro mem
    obtain ⟨c, _, hc⟩ := List.mem_map.mp mem
    rw [underscored] at hc
    grind
  rw [directPath, parts_of_noSlash noSlash]
  by_cases dots : objectName ∈ ["", "."]
  · rw [if_pos dots, if_neg fun kept => (counts_underscored objectName).mp kept dots]
  · rw [if_neg dots, if_pos ((counts_underscored objectName).mpr dots)]

theorem map_underscored_eq_iff (x y : String) :
    x.map underscored = y.map underscored ↔ List.Forall₂ SameUnderscored x.toList y.toList := by
  have same : (fun c d => underscored c = underscored d) = SameUnderscored :=
    funext₂ fun _ _ => propext underscored_eq_iff
  rw [← String.toList_inj, String.toList_map, String.toList_map, ← List.forall₂_eq_eq_eq,
    List.forall₂_map_left_iff, List.forall₂_map_right_iff, ← same]

theorem directPath_ne_iff (x y : String) : directPath x ≠ directPath y ↔ ¬ Confusable x y := by
  refine not_congr ?_
  have known : x.map underscored = y.map underscored → (x ∈ ["", "."] ↔ y ∈ ["", "."]) := by
    intro same
    have kept := counts_underscored x
    rw [same, counts_underscored y] at kept
    exact (not_iff_not.mp kept).symm
  rw [Confusable, ← map_underscored_eq_iff, directPath_eq, directPath_eq]
  by_cases dots : x ∈ ["", "."] <;> by_cases dots' : y ∈ ["", "."]
  · simp only [if_true, dots, dots', and_self, or_true]
  · simp only [if_true, if_false, dots, dots', and_false, or_false]
    exact iff_of_false (List.cons_ne_nil _ _).symm fun same => dots' ((known same).mp dots)
  · simp only [if_true, if_false, dots, dots', false_and, or_false]
    exact iff_of_false (List.cons_ne_nil _ _) fun same => dots ((known same).mpr dots')
  · simp only [if_false, dots, dots', and_self, or_false, List.singleton_inj]

/-! ### Objects -/

/-- Two objects have files of their own exactly if their keys end in a name and obstruct each
other in neither direction, and without a cache if their names cannot be confused. -/
theorem objects_apart_iff (reading : Reading) (sha₁ objectName₁ sha₂ objectName₂ : String) :
    let key₁ := cacheKey sha₁ objectName₁
    let key₂ := cacheKey sha₂ objectName₂
    ([reading.place (dataPath key₁), reading.place (metaPath key₁), reading.place (dataPath key₂),
        reading.place (metaPath key₂)].Pairwise Apart ↔
      (reading.names (lastSegment key₁) = true ∧ reading.names (lastSegment key₂) = true) ∧
        ¬ Obstructs (reading.normal key₁) (reading.normal key₂) ∧
        ¬ Obstructs (reading.normal key₂) (reading.normal key₁)) ∧
      (directPath objectName₁ ≠ directPath objectName₂ ↔ ¬ Confusable objectName₁ objectName₂) := by
  intro key₁ key₂
  have sharded₁ := sharded_cacheKey sha₁ objectName₁
  have sharded₂ := sharded_cacheKey sha₂ objectName₂
  refine ⟨(files_apart_iff reading key₁ key₂).trans (and_congr_right fun names => ?_),
    directPath_ne_iff objectName₁ objectName₂⟩
  rw [obstructs_normal_iff sharded₁ sharded₂ names.1 names.2,
    obstructs_normal_iff sharded₂ sharded₁ names.2 names.1, not_or, not_or]

theorem objects_share_files :
    metaPath (cacheKey "" "a") = dataPath (cacheKey "" "a.meta.json") ∧
      dataPath (cacheKey "" "a") ≠ dataPath (cacheKey "" "a/b") ∧
      dataPath (cacheKey "" "a") <+: dataPath (cacheKey "" "a/b") ∧
      directPath "a/b" = directPath "a_b" := by
  decide +kernel

end AcojWorker.FileCache
