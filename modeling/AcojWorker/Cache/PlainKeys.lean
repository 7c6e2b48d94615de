import AcojWorker.Cache.Discipline
import AcojWorker.Cache.Paths

/-!
# Plain keys

A key without a slash has its two files in one directory below the root, under its own name. If
moreover it does not look like the name of a meta file, its meta file is the only file that
stands for it, and no other key shares its files.
-/

namespace AcojWorker.FileCache

-- The paths of a key are not to be computed when one is substituted.
attribute [local irreducible] FileCache.dataPath FileCache.metaPath

/-- The name of a meta file stands for its key exactly if the key has no slash. -/
theorem keyFromMetaPath_metaPath_iff (key : Key) :
    keyFromMetaPath (metaPath key) = some key ↔ '/' ∉ key.toList := by
  rw [keyFromMetaPath_eq_some, metaPath_eq, List.getLast?_concat, Option.some.injEq,
    ← String.toList_inj, String.toList_append, String.toList_append, List.append_left_inj,
    String.toList_ofList]
  constructor
  · intro same
    rw [← same]
    apply noSlash_of_mem
    rw [splitSlashes_eq]
    exact List.mem_append_right _ (List.mem_singleton_self _)
  · intro noSlash
    rw [lastSegment, splitSlashes_of_noSlash noSlash]
    rfl

/-- A key that is a file name, and not one of a meta file. -/
structure Plain (key : Key) : Prop where
  sharded : Sharded key
  noSlash : '/' ∉ key.toList
  unsuffixed : ¬ metaSuffix.toList <:+ key.toList

section Plain

variable {key key' : Key} {path : Path}

theorem Plain.dataPath (plain : Plain key) : dataPath key = [keyPrefix key, key] := by
  have long : 2 ≤ key.toList.length := by
    rw [← plain.sharded.long]
    exact List.length_take_le' 2 key.toList
  rw [dataPath_eq plain.sharded, parts_of_noSlash plain.noSlash, if_pos (counts_of_long long)]

theorem Plain.metaPath (plain : Plain key) :
    metaPath key = [keyPrefix key, key ++ metaSuffix] := by
  have here : lastSegment key = key.toList := by
    rw [lastSegment, splitSlashes_of_noSlash plain.noSlash]
    rfl
  have top : dirParts key = [] := by
    rw [dirParts, initSegments, splitSlashes_of_noSlash plain.noSlash]
    rfl
  rw [metaPath_eq, parts_keyPrefix plain.sharded, top, here, String.ofList_toList]
  rfl

theorem suffix_of_append_eq (same : key = key' ++ metaSuffix) :
    metaSuffix.toList <:+ key.toList := by
  rw [same, String.toList_append]
  exact List.suffix_append ..

/-- A file belongs to one plain key only. -/
theorem Plain.owner (plain : Plain key) (plain' : Plain key') (owns : Owns key path)
    (owns' : Owns key' path) : key' = key := by
  rcases owns with rfl | rfl <;> rcases owns' with same | same
  · rw [plain.dataPath, plain'.dataPath] at same
    exact (List.cons.inj (List.cons.inj same).2).1.symm
  · rw [plain.dataPath, plain'.metaPath] at same
    exact absurd (suffix_of_append_eq (List.cons.inj (List.cons.inj same).2).1) plain.unsuffixed
  · rw [plain.metaPath, plain'.dataPath] at same
    exact absurd (suffix_of_append_eq (List.cons.inj (List.cons.inj same).2).1.symm)
      plain'.unsuffixed
  · rw [plain.metaPath, plain'.metaPath] at same
    have names := congrArg String.toList (List.cons.inj (List.cons.inj same).2).1
    rw [String.toList_append, String.toList_append, List.append_left_inj] at names
    exact (String.toList_inj.mp names).symm

theorem isMetaFile_metaPath (key : Key) : isMetaFile (metaPath key) = true := by
  rw [isMetaFile, metaPath_eq, List.getLast?_concat]
  rw [List.isSuffixOf_iff_suffix, String.toList_append]
  exact List.suffix_append ..

theorem Plain.isMetaFile (plain : Plain key) (owns : Owns key path) :
    isMetaFile path = true ↔ path = FileCache.metaPath key := by
  rcases owns with rfl | rfl
  · refine iff_of_false (fun listed => plain.unsuffixed ?_) (dataPath_ne_metaPath key)
    rw [FileCache.isMetaFile, plain.dataPath] at listed
    exact List.isSuffixOf_iff_suffix.mp listed
  · exact iff_of_true (isMetaFile_metaPath key) rfl

theorem Plain.decoded (plain : Plain key) : keyFromMetaPath (FileCache.metaPath key) = some key :=
  (keyFromMetaPath_metaPath_iff key).mpr plain.noSlash

theorem Plain.ne_empty (plain : Plain key) : key ≠ "" := by
  rintro rfl
  exact absurd plain.sharded.long (by decide)

end Plain

end AcojWorker.FileCache
