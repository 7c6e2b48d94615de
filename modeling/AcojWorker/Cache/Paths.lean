import AcojWorker.Cache.Disk

/-!
# Paths and their texts

A path below the root of the cache is the list of its parts, and the text of a list of parts
without slashes is taken apart into the same parts again: lying at or below a path is a
comparison of texts. Dot-dot parts are parts like all others until they are resolved.
-/

namespace AcojWorker.FileCache

/-! ### Splitting texts -/

theorem splitSlashes_ne_nil (cs : List Char) : splitSlashes cs ≠ [] := by
  cases cs with
  | nil => exact List.cons_ne_nil _ _
  | cons c cs =>
      rw [splitSlashes]
      split
      · exact List.cons_ne_nil _ _
      · split <;> exact List.cons_ne_nil _ _

theorem splitSlashes_slash (cs : List Char) : splitSlashes ('/' :: cs) = [] :: splitSlashes cs :=
  if_pos rfl

theorem splitSlashes_cons {c : Char} {cs part : List Char} {parts : List (List Char)}
    (other : c ≠ '/') (h : splitSlashes cs = part :: parts) :
    splitSlashes (c :: cs) = (c :: part) :: parts := by
  rw [splitSlashes, if_neg other, h]

theorem splitSlashes_append_slash (as bs : List Char) :
    splitSlashes (as ++ '/' :: bs) = splitSlashes as ++ splitSlashes bs := by
  induction as with
  | nil => exact splitSlashes_slash bs
  | cons a as ih =>
      by_cases slash : a = '/'
      · subst slash
        rw [List.cons_append, splitSlashes_slash, splitSlashes_slash, ih, List.cons_append]
      · obtain ⟨part, parts, h⟩ := List.exists_cons_of_ne_nil (splitSlashes_ne_nil as)
        rw [h] at ih
        rw [List.cons_append, splitSlashes_cons slash h, splitSlashes_cons slash ih]
        rfl

theorem splitSlashes_of_noSlash {cs : List Char} (noSlash : '/' ∉ cs) : splitSlashes cs = [cs] := by
  induction cs with
  | nil => rfl
  | cons c cs ih =>
      rw [List.mem_cons, not_or] at noSlash
      exact splitSlashes_cons (Ne.symm noSlash.1) (ih noSlash.2)

/-- What is written before the first slash begins the first segment. -/
theorem splitSlashes_append_left {as : List Char} (noSlash : '/' ∉ as) (bs : List Char) :
    ∃ rest tail, splitSlashes (as ++ bs) = (as ++ rest) :: tail := by
  induction as with
  | nil => exact List.exists_cons_of_ne_nil (splitSlashes_ne_nil bs)
  | cons a as ih =>
      rw [List.mem_cons, not_or] at noSlash
      obtain ⟨rest, tail, h⟩ := ih noSlash.2
      exact ⟨rest, tail, splitSlashes_cons (Ne.symm noSlash.1) h⟩

theorem noSlash_of_mem {cs : List Char} : ∀ part ∈ splitSlashes cs, '/' ∉ part := by
  induction cs with
  | nil =>
      intro part hpart
      rw [List.mem_singleton.mp hpart]
      exact List.not_mem_nil
  | cons c cs ih =>
      by_cases slash : c = '/'
      · subst slash
        rw [splitSlashes_slash]
        intro part hpart
        rcases List.mem_cons.mp hpart with rfl | hpart
        · exact List.not_mem_nil
        · exact ih part hpart
      · obtain ⟨first, rest, h⟩ := List.exists_cons_of_ne_nil (splitSlashes_ne_nil cs)
        rw [h] at ih
        rw [splitSlashes_cons slash h]
        intro part hpart
        rcases List.mem_cons.mp hpart with rfl | hpart
        · rw [List.mem_cons, not_or]
          exact ⟨Ne.symm slash, ih first (List.mem_cons_self ..)⟩
        · exact ih part (List.mem_cons_of_mem _ hpart)

/-- What is written behind a text goes to its last segment. -/
theorem splitSlashes_append {as bs last : List Char} {init : List (List Char)} (noSlash : '/' ∉ bs)
    (h : splitSlashes as = init ++ [last]) : splitSlashes (as ++ bs) = init ++ [last ++ bs] := by
  induction as generalizing init last with
  | nil =>
      cases init with
      | nil =>
          cases h
          exact splitSlashes_of_noSlash noSlash
      | cons first init => exact absurd (List.cons.inj h).2 (by simp)
  | cons a as ih =>
      by_cases slash : a = '/'
      · subst slash
        rw [splitSlashes_slash] at h
        rw [List.cons_append, splitSlashes_slash]
        cases init with
        | nil => exact absurd (List.cons.inj h).2 (splitSlashes_ne_nil as)
        | cons first init =>
            obtain ⟨rfl, rest⟩ := List.cons.inj h
            rw [ih rest]
            rfl
      · obtain ⟨part, parts, split⟩ := List.exists_cons_of_ne_nil (splitSlashes_ne_nil as)
        rw [splitSlashes_cons slash split] at h
        rw [List.cons_append]
        cases init with
        | nil =>
            obtain ⟨rfl, rfl⟩ := List.cons.inj h
            exact splitSlashes_cons slash (ih (show _ = [] ++ [_] from split))
        | cons first init =>
            obtain ⟨rfl, rfl⟩ := List.cons.inj h
            exact splitSlashes_cons slash (ih (show _ = (part :: init) ++ [_] from split))

/-! ### Texts of paths -/

def joinSlashes : List (List Char) → List Char
  | [] => []
  | [part] => part
  | part :: parts => part ++ '/' :: joinSlashes parts

theorem joinSlashes_append {ps qs : List (List Char)} (hp : ps ≠ []) (hq : qs ≠ []) :
    joinSlashes (ps ++ qs) = joinSlashes ps ++ '/' :: joinSlashes qs := by
  induction ps with
  | nil => exact absurd rfl hp
  | cons p ps ih =>
      cases ps with
      | nil =>
          obtain ⟨q, qs, rfl⟩ := List.exists_cons_of_ne_nil hq
          rfl
      | cons p' ps =>
          change p ++ '/' :: joinSlashes (p' :: ps ++ qs) =
            (p ++ '/' :: joinSlashes (p' :: ps)) ++ '/' :: joinSlashes qs
          rw [ih (List.cons_ne_nil _ _), List.append_assoc, List.cons_append]

theorem splitSlashes_join {ps : List (List Char)} (hp : ps ≠ []) (clean : ∀ p ∈ ps, '/' ∉ p) :
    splitSlashes (joinSlashes ps) = ps := by
  induction ps with
  | nil => exact absurd rfl hp
  | cons p ps ih =>
      have first := splitSlashes_of_noSlash (clean p (List.mem_cons_self ..))
      cases ps with
      | nil => exact first
      | cons p' ps =>
          have rest := ih (List.cons_ne_nil _ _) fun q hq => clean q (List.mem_cons_of_mem _ hq)
          change splitSlashes (p ++ '/' :: joinSlashes (p' :: ps)) = p :: p' :: ps
          rw [splitSlashes_append_slash, first, rest, List.singleton_append]

/-- The parts with slashes between them. -/
def pathText (path : Path) : String := String.ofList (joinSlashes (path.map String.toList))

/-- The text names the path `x` or something below it. -/
def AtOrBelow (x y : String) : Prop := y = x ∨ (x ++ "/").toList <+: y.toList

instance (x y : String) : Decidable (AtOrBelow x y) := inferInstanceAs (Decidable (_ ∨ _))

def Clean (path : Path) : Prop := ∀ part ∈ path, '/' ∉ part.toList

theorem splitSlashes_pathText {path : Path} (nonempty : path ≠ []) (clean : Clean path) :
    splitSlashes (pathText path).toList = path.map String.toList := by
  rw [pathText, String.toList_ofList]
  exact splitSlashes_join (by simpa using nonempty) (List.forall_mem_map.mpr clean)

/-- Comparing paths is comparing their texts. -/
theorem prefix_iff_text {path path' : Path} (nonempty : path ≠ []) (nonempty' : path' ≠ [])
    (clean : Clean path) (clean' : Clean path') :
    path <+: path' ↔ AtOrBelow (pathText path) (pathText path') := by
  have split := splitSlashes_pathText nonempty clean
  have split' := splitSlashes_pathText nonempty' clean'
  have inj := List.map_injective_iff.mpr fun _ _ => String.toList_inj.mp
  constructor
  · rintro ⟨rest, rfl⟩
    by_cases empty : rest = []
    · subst empty
      exact .inl (by rw [List.append_nil])
    · refine .inr ⟨joinSlashes (rest.map String.toList), ?_⟩
      simp only [pathText, String.toList_append, String.toList_ofList, List.map_append]
      rw [joinSlashes_append (by simpa using nonempty) (by simpa using empty), List.append_assoc]
      rfl
  · rintro (same | ⟨rest, hrest⟩)
    · rw [same, split] at split'
      simp only [inj split', List.prefix_refl]
    · rw [String.toList_append, List.append_assoc] at hrest
      change (pathText path).toList ++ '/' :: rest = _ at hrest
      rw [← hrest, splitSlashes_append_slash, split] at split'
      obtain ⟨before, after, rfl, hbefore, _⟩ := List.map_eq_append_iff.mp split'.symm
      rw [inj hbefore]
      exact List.prefix_append ..

/-! ### The parts of a key -/

/-- Whether `pathlib` keeps a segment as a part. -/
def counts (segment : List Char) : Bool := segment ≠ [] ∧ segment ≠ ['.']

def initSegments (text : String) : List (List Char) := (splitSlashes text.toList).dropLast

def lastSegment (text : String) : List Char := (splitSlashes text.toList).getLastD []

theorem splitSlashes_eq (text : String) :
    splitSlashes text.toList = initSegments text ++ [lastSegment text] := by
  rw [initSegments, lastSegment, List.getLastD_eq_getLast?,
    List.getLast?_eq_getLast_of_ne_nil (splitSlashes_ne_nil _), Option.getD_some,
    List.dropLast_append_getLast]

/-- The directory of the key, and its last part if there is one. -/
def dirParts (text : String) : Path := ((initSegments text).filter counts).map String.ofList

theorem parts_eq (text : String) :
    parts text = dirParts text ++
      if counts (lastSegment text) then [String.ofList (lastSegment text)] else [] := by
  have split : parts text =
      ((initSegments text ++ [lastSegment text]).filter counts).map String.ofList := by
    rw [← splitSlashes_eq]
    rfl
  rw [split, List.filter_append, List.map_append, dirParts]
  cases h : counts (lastSegment text) <;> simp [h]

/-- A suffix without a slash becomes part of the last part. -/
theorem parts_append (text : String) {suffix : List Char} (noSlash : '/' ∉ suffix)
    (kept : ∀ segment, counts (segment ++ suffix) = true) :
    parts (text ++ String.ofList suffix) =
      dirParts text ++ [String.ofList (lastSegment text ++ suffix)] := by
  have split := splitSlashes_append noSlash (splitSlashes_eq text)
  have here : parts (text ++ String.ofList suffix) =
      ((splitSlashes (text.toList ++ suffix)).filter counts).map String.ofList := by
    rw [parts, String.toList_append, String.toList_ofList]
    rfl
  rw [here, split, List.filter_append, List.map_append, dirParts]
  simp [kept]

theorem parts_of_noSlash {text : String} (noSlash : '/' ∉ text.toList) :
    parts text = if counts text.toList then [text] else [] := by
  change ((splitSlashes text.toList).filter counts).map String.ofList = _
  rw [splitSlashes_of_noSlash noSlash]
  by_cases kept : counts text.toList = true
  · rw [if_pos kept, List.filter_cons_of_pos kept]
    change [String.ofList text.toList] = _
    rw [String.ofList_toList]
  · rw [if_neg kept, List.filter_cons_of_neg kept]
    rfl

/-- The name of a meta file is longer than any special segment. -/
theorem suffixed_ne (segment : List Char) {short : List Char} (le : short.length ≤ 2) :
    segment ++ metaSuffix.toList ≠ short := by
  rintro rfl
  rw [List.length_append] at le
  exact absurd (Nat.le_add_left 10 segment.length) (not_le.mpr (lt_of_le_of_lt le (by decide)))

theorem counts_suffixed (segment : List Char) : counts (segment ++ metaSuffix.toList) = true := by
  rw [counts, decide_eq_true_iff]
  exact ⟨suffixed_ne segment (by decide), suffixed_ne segment (by decide)⟩

theorem parts_suffixed (key : Key) :
    parts (key ++ metaSuffix) =
      dirParts key ++ [String.ofList (lastSegment key) ++ metaSuffix] := by
  have suffixed := parts_append key (show '/' ∉ metaSuffix.toList by decide) counts_suffixed
  rw [String.ofList_append, String.ofList_toList] at suffixed
  exact suffixed

/-- The meta file of a key lies in the directory of the key. -/
theorem metaPath_eq (key : Key) :
    metaPath key = (parts (keyPrefix key) ++ dirParts key) ++
      [String.ofList (lastSegment key) ++ metaSuffix] := by
  rw [List.append_assoc, ← parts_suffixed]
  rfl

/-- The two files of a key are two. -/
theorem dataPath_ne_metaPath (key : Key) : dataPath key ≠ metaPath key := by
  intro same
  rw [metaPath_eq, dataPath, parts_eq key, ← List.append_assoc, List.append_right_inj] at same
  split at same
  · have names := congrArg String.toList (List.cons.inj same).1
    rw [String.toList_append] at names
    have lengths := congrArg List.length names
    rw [List.length_append] at lengths
    exact absurd lengths (Nat.ne_of_lt (Nat.lt_add_of_pos_right (by decide)))
  · cases same

theorem clean_parts (text : String) : Clean (parts text) := by
  intro part hpart
  obtain ⟨segment, hsegment, rfl⟩ := List.mem_map.mp hpart
  rw [String.toList_ofList]
  exact noSlash_of_mem segment (List.mem_filter.mp hsegment).1

theorem clean_dataPath (key : Key) : Clean (dataPath key) :=
  List.forall_mem_append.mpr ⟨clean_parts _, clean_parts _⟩

theorem clean_metaPath (key : Key) : Clean (metaPath key) :=
  List.forall_mem_append.mpr ⟨clean_parts _, clean_parts _⟩

/-! ### The shard of a key -/

/-- The first two characters of a key are part of its first segment. -/
structure Sharded (key : Key) : Prop where
  long : (key.toList.take 2).length = 2
  noSlash : '/' ∉ key.toList.take 2

theorem sharded_cacheKey (sha256 objectName : String) : Sharded (cacheKey sha256 objectName) := by
  rw [cacheKey]
  split <;> constructor <;> simp

section Sharded

variable {key : Key}

theorem counts_of_long {segment : List Char} (long : 2 ≤ segment.length) :
    counts segment = true := by
  have other : ∀ short : List Char, short.length < 2 → segment ≠ short := by
    rintro short lt rfl
    exact absurd long (not_le.mpr lt)
  simp [counts, other [], other ['.']]

theorem parts_keyPrefix (sharded : Sharded key) : parts (keyPrefix key) = [keyPrefix key] := by
  have first : (keyPrefix key).toList = key.toList.take 2 := String.toList_ofList
  rw [parts_of_noSlash (by rw [first]; exact sharded.noSlash),
    if_pos (by rw [first]; exact counts_of_long sharded.long.ge)]

theorem parts_head (sharded : Sharded key) (suffix : String) :
    ∃ part path, parts (key ++ suffix) = part :: path ∧ part.toList.take 2 = key.toList.take 2 := by
  obtain ⟨rest, tail, split⟩ := splitSlashes_append_left sharded.noSlash
    (key.toList.drop 2 ++ suffix.toList)
  rw [← List.append_assoc, List.take_append_drop] at split
  have kept : counts (key.toList.take 2 ++ rest) = true :=
    counts_of_long (by rw [List.length_append]; exact Nat.le_add_right_of_le sharded.long.ge)
  refine ⟨String.ofList (key.toList.take 2 ++ rest), (tail.filter counts).map String.ofList, ?_, ?_⟩
  · rw [parts, String.toList_append, split]
    change ((_ :: tail).filter counts).map String.ofList = _
    rw [List.filter_cons_of_pos kept]
    rfl
  · rw [String.toList_ofList]
    exact List.take_left' sharded.long

theorem parts_ne_nil (sharded : Sharded key) : parts key ≠ [] := by
  obtain ⟨part, path, h, _⟩ := parts_head sharded ""
  rw [String.append_empty] at h
  rw [h]
  exact List.cons_ne_nil _ _

theorem dataPath_eq (sharded : Sharded key) : dataPath key = keyPrefix key :: parts key := by
  rw [dataPath, parts_keyPrefix sharded, List.singleton_append]

end Sharded

/-! ### Names of meta files -/

/-- The file name of a meta file is its key, as far as a name shows it. -/
theorem keyFromMetaPath_eq_some {path : Path} {key : Key} :
    keyFromMetaPath path = some key ↔ path.getLast? = some (key ++ metaSuffix) := by
  rw [keyFromMetaPath]
  cases path.getLast? with
  | none => simp
  | some name =>
      simp only [Option.some.injEq]
      by_cases suffixed : metaSuffix.toList.isSuffixOf name.toList = true
      · obtain ⟨stem, hstem⟩ := List.isSuffixOf_iff_suffix.mp suffixed
        have taken : name.toList.take (name.length - metaSuffix.length) = stem := by
          rw [← String.length_toList, ← String.length_toList, ← hstem]
          simp
        rw [if_pos suffixed, taken, Option.some.injEq, ← String.toList_inj, ← String.toList_inj,
          String.toList_append, ← hstem, List.append_left_inj, String.toList_ofList]
      · rw [if_neg suffixed]
        refine iff_of_false nofun fun same => suffixed ?_
        rw [same, String.toList_append]
        exact List.isSuffixOf_iff_suffix.mpr (List.suffix_append ..)

/-! ### Resolving dot-dot parts -/

def climb (path : Path) (part : String) : Path :=
  if part = ".." then path.dropLast else path ++ [part]

/-- Where a relative path leads from a directory, without a look at the disk. -/
def resolveFrom (root path : Path) : Path := path.foldl climb root

theorem resolveFrom_append (root path path' : Path) :
    resolveFrom root (path ++ path') = resolveFrom (resolveFrom root path) path' :=
  List.foldl_append ..

theorem resolveFrom_concat (root path : Path) {part : String} (proper : part ≠ "..") :
    resolveFrom root (path ++ [part]) = resolveFrom root path ++ [part] := by
  rw [resolveFrom_append]
  exact if_neg proper

theorem clean_resolveFrom {root path : Path} (cleanRoot : Clean root) (clean : Clean path) :
    Clean (resolveFrom root path) := by
  induction path generalizing root with
  | nil => exact cleanRoot
  | cons part path ih =>
      refine ih ?_ fun p hp => clean p (List.mem_cons_of_mem _ hp)
      rw [climb]
      split
      · exact fun p hp => cleanRoot p (List.dropLast_subset _ hp)
      · intro p hp
        rcases List.mem_append.mp hp with hp | hp
        · exact cleanRoot p hp
        · rw [List.mem_singleton.mp hp]
          exact clean part (List.mem_cons_self ..)

end AcojWorker.FileCache
