import AcojWorker.Cache.Discipline
import AcojWorker.Cache.Paths
import AcojWorker.Effect.Invariant
import AcojWorker.Effect.Sequential
import Mathlib.Data.Fintype.EquivFin

/-!
# Files outside of the cache

No name is checked before it becomes a path. The calls of a run stay below the root of the
cache exactly if no key climbs out of the root, and no file of a key has a name that stands,
in an eviction or a purge, for a key that does.
-/

namespace AcojWorker.FileCache

open Python Effect

-- The paths of a key are not to be computed when one is substituted.
attribute [local irreducible] FileCache.dataPath FileCache.metaPath

/-! ### Below a root -/

def StrictlyBelow (root path : Path) : Prop := root <+: path ∧ path ≠ root

/-- How deep a path leads from some depth, unless it climbs higher than it has descended. -/
def descend : Nat → Path → Option Nat
  | depth, [] => some depth
  | depth, part :: path =>
      if part = ".." then
        match depth with
        | 0 => none
        | depth + 1 => descend depth path
      else descend (depth + 1) path

section Descend

variable {path path' root below : Path} {depth depth' : Nat}

theorem descend_up : descend (depth + 1) (".." :: path) = descend depth path := if_pos rfl

theorem descend_out : descend 0 (".." :: path) = none := if_pos rfl

theorem descend_down {part : String} (proper : part ≠ "..") :
    descend depth (part :: path) = descend (depth + 1) path := if_neg proper

theorem descend_append (path path' : Path) (depth : Nat) :
    descend depth (path ++ path') = (descend depth path).bind fun depth => descend depth path' := by
  induction path generalizing depth with
  | nil => rfl
  | cons part path ih =>
      by_cases up : part = ".."
      · subst up
        cases depth with
        | zero =>
            rw [List.cons_append, descend_out, descend_out]
            rfl
        | succ depth =>
            rw [List.cons_append, descend_up, descend_up]
            exact ih depth
      · rw [List.cons_append, descend_down up, descend_down up]
        exact ih (depth + 1)

/-- A walk that does not climb out ends below the root, as deep as it says. -/
theorem resolveFrom_descend (root : Path) {below : Path} (h : descend below.length path = some depth) :
    ∃ below', below'.length = depth ∧ resolveFrom (root ++ below) path = root ++ below' := by
  induction path generalizing below with
  | nil => exact ⟨below, Option.some.inj h, rfl⟩
  | cons part path ih =>
      by_cases up : part = ".."
      · subst up
        rcases List.eq_nil_or_concat below with rfl | ⟨below, last, rfl⟩
        · rw [List.length_nil, descend_out] at h
          exact nomatch h
        · rw [List.concat_eq_append, List.length_append, List.length_singleton, descend_up] at h
          obtain ⟨below', deep, leads⟩ := ih h
          refine ⟨below', deep, ?_⟩
          rw [← leads]
          change resolveFrom (root ++ below.concat last).dropLast path = _
          rw [List.concat_eq_append, ← List.append_assoc, List.dropLast_concat]
      · rw [descend_down up] at h
        have longer : (below ++ [part]).length = below.length + 1 := by simp
        rw [← longer] at h
        obtain ⟨below', deep, leads⟩ := ih h
        refine ⟨below', deep, ?_⟩
        rw [← leads, ← List.append_assoc]
        change resolveFrom (climb (root ++ below) part) path = _
        rw [climb, if_neg up]

theorem mem_resolveFrom (root : Path) {part : String} (mem : part ∈ resolveFrom root path) :
    part ∈ root ∨ part ∈ path := by
  induction path generalizing root with
  | nil => exact .inl mem
  | cons first path ih =>
      rcases ih _ mem with mem | mem
      · rw [climb] at mem
        split at mem
        · exact .inl (List.dropLast_subset _ mem)
        · rcases List.mem_append.mp mem with mem | mem
          · exact .inl mem
          · exact .inr (List.mem_singleton.mp mem ▸ List.mem_cons_self ..)
      · exact .inr (List.mem_cons_of_mem _ mem)

/-- A walk that climbs out loses the root. -/
theorem not_mem_resolveFrom {name : String} (fresh : name ∉ path) (unnamed : name ∉ below)
    (h : descend below.length path = none) : name ∉ resolveFrom (name :: below) path := by
  induction path generalizing below with
  | nil => exact nomatch h
  | cons part path ih =>
      rw [List.mem_cons, not_or] at fresh
      by_cases up : part = ".."
      · subst up
        rcases List.eq_nil_or_concat below with rfl | ⟨below, last, rfl⟩
        · intro mem
          have here : name ∈ resolveFrom [] path := mem
          rcases mem_resolveFrom [] here with mem | mem
          · exact nomatch mem
          · exact fresh.2 mem
        · rw [List.concat_eq_append] at unnamed h ⊢
          rw [List.length_append, List.length_singleton, descend_up] at h
          have here := ih fresh.2 (fun mem => unnamed (List.mem_append_left _ mem)) h
          change name ∉ resolveFrom ((name :: below) ++ [last]).dropLast path
          rw [List.dropLast_concat]
          exact here
      · rw [descend_down up] at h
        have longer : (below ++ [part]).length = below.length + 1 := by simp
        rw [← longer] at h
        have unnamed' : name ∉ below ++ [part] := by
          rw [List.mem_append, not_or, List.mem_singleton]
          exact ⟨unnamed, fresh.1⟩
        have here := ih fresh.2 unnamed' h
        change name ∉ resolveFrom (climb (name :: below) part) path
        rw [climb, if_neg up]
        exact here

/-- The path leads to a place below the root it starts from, and never out of it. -/
def Inside (path : Path) : Prop := ∃ depth, descend 0 path = some (depth + 1)

theorem below_of_inside (inside : Inside path) (root : Path) :
    StrictlyBelow root (resolveFrom root path) := by
  obtain ⟨depth, h⟩ := inside
  obtain ⟨below, deep, leads⟩ := resolveFrom_descend root (show descend ([] : Path).length path = _ from h)
  rw [List.append_nil] at leads
  rw [leads]
  refine ⟨List.prefix_append .., fun same => ?_⟩
  rw [List.append_right_eq_self.mp same] at deep
  exact nomatch deep

/-- A path that stays below every root never climbs out. -/
theorem inside_of_below (h : ∀ root, StrictlyBelow root (resolveFrom root path)) :
    Inside path := by
  match walk : descend 0 path with
  | some (depth + 1) => exact ⟨depth, walk⟩
  | some 0 =>
      obtain ⟨below, deep, leads⟩ := resolveFrom_descend [] (show descend ([] : Path).length path = _ from walk)
      rw [List.length_eq_zero_iff.mp deep] at leads
      exact absurd leads (h []).2
  | none =>
      obtain ⟨name, fresh⟩ := Infinite.exists_notMem_finset path.toFinset
      rw [List.mem_toFinset] at fresh
      have lost : name ∉ resolveFrom [name] path :=
        not_mem_resolveFrom fresh List.not_mem_nil walk
      exact absurd ((h [name]).1.subset (List.mem_singleton_self name)) lost

/-- No part of the path climbs out. -/
def Rooted (path : Path) : Prop := ∃ depth, descend 0 path = some depth

theorem rooted_above (rooted : Rooted path') (below : path <+: path') : Rooted path := by
  obtain ⟨rest, rfl⟩ := below
  obtain ⟨depth, h⟩ := rooted
  rw [descend_append] at h
  obtain ⟨depth', h', _⟩ := Option.bind_eq_some_iff.mp h
  exact ⟨depth', h'⟩

theorem Inside.rooted (inside : Inside path) : Rooted path := inside.imp' (· + 1) fun _ h => h

theorem inside_concat (rooted : Rooted path) {part : String} (proper : part ≠ "..") :
    Inside (path ++ [part]) := by
  obtain ⟨depth, h⟩ := rooted
  refine ⟨depth, ?_⟩
  rw [descend_append, h, Option.bind_some, descend_down proper]
  rfl

/-- A directory on the way that is not the root or above it is below the root. -/
theorem below_of_rooted (rooted : Rooted path) (new : ¬ resolveFrom root path <+: root) :
    StrictlyBelow root (resolveFrom root path) := by
  obtain ⟨depth, h⟩ := rooted
  obtain ⟨below, _, leads⟩ := resolveFrom_descend root (show descend ([] : Path).length path = _ from h)
  rw [List.append_nil] at leads
  rw [leads] at new ⊢
  refine ⟨List.prefix_append .., fun same => new ?_⟩
  rw [same]

end Descend

/-! ### The files of a key -/

/-- The depth condition of a key says all about its files. -/
theorem inside_of_owns {key : Key} (inside : Inside (dataPath key)) {path : Path}
    (owns : Owns key path) : Inside path := by
  rcases owns with rfl | rfl
  · exact inside
  · rw [metaPath_eq]
    refine inside_concat (rooted_above inside.rooted ?_) ?_
    · rw [dataPath, parts_eq key, ← List.append_assoc]
      exact List.prefix_append ..
    · intro up
      have chars := congrArg String.toList up
      rw [String.toList_append, String.toList_ofList] at chars
      exact suffixed_ne _ (by decide) chars

/-! ### Keys that are found again -/

/-- A segment that leads out of the root, or to it, when it is taken for a key. -/
def Upward (segment : List Char) : Prop := segment = ['.'] ∨ ['.', '.'] <+: segment

instance (segment : List Char) : Decidable (Upward segment) := inferInstanceAs (Decidable (_ ∨ _))

theorem upward_suffixed_iff (segment : List Char) :
    ['.', '.'] <+: segment ++ metaSuffix.toList ↔ segment ≠ [] ∧ Upward segment := by
  match segment with
  | [] => decide
  | [c] => simp [Upward, metaSuffix, List.cons_prefix_cons, eq_comm]
  | c :: d :: rest => simp [Upward, List.cons_prefix_cons, eq_comm]

theorem counts_take {segment : List Char} (kept : counts segment = true) :
    counts (segment.take 2) = true := by
  match segment with
  | [] => exact kept
  | [_] => exact kept
  | _ :: _ :: _ => exact counts_of_long (Nat.le_refl 2)

/-- The files of a key without a slash. -/
theorem inside_name_iff {name : Key} (named : name ≠ "") (noSlash : '/' ∉ name.toList) :
    Inside (dataPath name) ↔ ¬ Upward name.toList := by
  have first : (keyPrefix name).toList = name.toList.take 2 := String.toList_ofList
  have prefixed : '/' ∉ (keyPrefix name).toList := by
    rw [first]
    exact fun slash => noSlash (List.mem_of_mem_take slash)
  by_cases dot : name.toList = ['.']
  · refine iff_of_false ?_ fun proper => proper (.inl dot)
    rintro ⟨depth, h⟩
    obtain rfl : name = "." := String.toList_inj.mp dot
    rw [show dataPath "." = [] by decide +kernel] at h
    cases h
  by_cases dots : ['.', '.'] <+: name.toList
  · refine iff_of_false ?_ fun proper => proper (.inr dots)
    rintro ⟨depth, h⟩
    obtain ⟨rest, hrest⟩ := dots
    have up : keyPrefix name = ".." := String.toList_inj.mp (by rw [first, ← hrest]; rfl)
    rw [dataPath, parts_of_noSlash prefixed, up, if_pos (by decide), List.singleton_append,
      descend_out] at h
    cases h
  · refine iff_of_true ?_ (not_or.mpr ⟨dot, dots⟩)
    have kept : counts name.toList = true := decide_eq_true ⟨by simpa using named, dot⟩
    have keptPrefix : counts (keyPrefix name).toList = true := by
      rw [first]
      exact counts_take kept
    rw [dataPath, parts_of_noSlash prefixed, parts_of_noSlash noSlash, if_pos kept,
      if_pos keptPrefix, List.singleton_append]
    refine ⟨1, ?_⟩
    rw [descend_down, descend_down]
    · rfl
    · rintro rfl
      exact dots (by decide)
    · intro up
      rw [up] at first
      have begins := List.take_prefix 2 name.toList
      rw [← first] at begins
      exact dots begins

/-- The keys that stand in the names of the files of some keys. -/
def Rediscovered (keys : Set Key) : Set Key :=
  {key' | key' ≠ "" ∧ ∃ key ∈ keys, ∃ path, Owns key path ∧ keyFromMetaPath path = some key'}

/-- One directory below the root, the key is a path that does not leave the root; it does not
end in a dot or in a segment that begins with two dots, nor in such a meta file and slashes. -/
structure Contained (key : Key) : Prop where
  inside : ∃ depth, descend 1 (parts key) = some (depth + 1)
  ending : ¬ Upward (lastSegment key)
  suffixed : ∀ part ∈ (parts key).getLast?, metaSuffix.toList <:+ part.toList →
    ¬ ['.', '.'] <+: part.toList

theorem keyPrefix_cacheKey (sha256 objectName : String) :
    keyPrefix (cacheKey sha256 objectName) ≠ ".." := by
  intro up
  have chars := congrArg String.toList up
  rw [keyPrefix, String.toList_ofList, cacheKey] at chars
  split at chars <;> simp at chars

theorem contained_iff {key : Key} (sharded : Sharded key) (proper : keyPrefix key ≠ "..") :
    Contained key ↔
      Inside (dataPath key) ∧ ∀ key' ∈ Rediscovered {key}, Inside (dataPath key') := by
  have inside : Inside (dataPath key) ↔ ∃ depth, descend 1 (parts key) = some (depth + 1) := by
    rw [Inside, dataPath_eq sharded, descend_down proper]
  have shown : ∀ key' ≠ "", ∀ path, Clean path → keyFromMetaPath path = some key' →
      (Inside (dataPath key') ↔ ¬ Upward key'.toList) := by
    intro key' named path clean derived
    refine inside_name_iff named fun slash => ?_
    have mem := List.mem_of_getLast? (keyFromMetaPath_eq_some.mp derived)
    exact clean _ mem (by rw [String.toList_append]; exact List.mem_append_left _ slash)
  have own : ∀ key', keyFromMetaPath (metaPath key) = some key' ↔
      key' = String.ofList (lastSegment key) := by
    intro key'
    rw [keyFromMetaPath_eq_some, metaPath_eq, List.getLast?_concat, Option.some.injEq,
      ← String.toList_inj, ← String.toList_inj, String.toList_append, String.toList_append,
      List.append_left_inj, eq_comm]
  have data : (dataPath key).getLast? = (parts key).getLast? := by
    rw [dataPath_eq sharded]
    exact List.getLast?_cons_of_ne_nil (parts_ne_nil sharded)
  constructor
  · intro contained
    refine ⟨inside.mpr contained.inside, ?_⟩
    rintro key' ⟨named, key, rfl, path, rfl | rfl, derived⟩
    · refine (shown key' named _ (clean_dataPath key) derived).mpr fun upward => ?_
      rw [keyFromMetaPath_eq_some, data] at derived
      refine contained.suffixed _ derived ?_ ?_
      · rw [String.toList_append]
        exact List.suffix_append ..
      · rw [String.toList_append]
        exact (upward_suffixed_iff _).mpr ⟨by simpa using named, upward⟩
    · refine (shown key' named _ (clean_metaPath key) derived).mpr ?_
      rw [(own key').mp derived, String.toList_ofList]
      exact contained.ending
  · rintro ⟨below, found⟩
    refine ⟨inside.mp below, fun upward => ?_, ?_⟩
    · have named : String.ofList (lastSegment key) ≠ "" := by
        intro empty
        have chars := congrArg String.toList empty
        rw [String.toList_ofList] at chars
        rw [chars] at upward
        revert upward
        decide
      have derived := (own _).mpr rfl
      refine (shown _ named _ (clean_metaPath key) derived).mp
        (found _ ⟨named, key, rfl, _, .inr rfl, derived⟩) ?_
      rw [String.toList_ofList]
      exact upward
    · rintro part last ⟨stem, hstem⟩ dots
      rw [← hstem, upward_suffixed_iff] at dots
      have derived : keyFromMetaPath (dataPath key) = some (String.ofList stem) := by
        rw [keyFromMetaPath_eq_some, data, last, Option.some.injEq, ← String.toList_inj, ← hstem,
          String.toList_append, String.toList_ofList]
      have named : String.ofList stem ≠ "" := by
        intro empty
        exact dots.1 (by simpa using congrArg String.toList empty)
      refine (shown _ named _ (clean_dataPath key) derived).mp
        (found _ ⟨named, key, rfl, _, .inl rfl, derived⟩) ?_
      rw [String.toList_ofList]
      exact dots.2

end AcojWorker.FileCache
