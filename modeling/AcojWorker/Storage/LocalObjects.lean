import AcojWorker.Python.Numerals
import AcojWorker.Storage.Local
import Mathlib.Data.List.Nodup

/-!
# The local storage is an object store

The tree below the root mirrors the objects: a file for each object, a directory for each folder.
Every request keeps it so and is answered as the object store answers it; outside of the root
nothing changes.
-/

namespace AcojWorker.LocalObjects

open Python FileTree StorageUrl
open FileCache (Path parts resolveFrom)

/-! ### What the tree shows -/

/-- The tree below the root shows the objects and the folders. -/
structure Mirrors (root : Path) (t : Disk) (o : Objects) : Prop where
  sound : Sound t
  files : ∀ key x, t (root ++ key) = some (.file x) ↔ o.stored key = some x
  dirs : ∀ key, t (root ++ key) = some .dir ↔ o.folder key

section Mirrors

variable {root : Path} {t : Disk} {o : Objects} {key : Path}

theorem folder_nil (o : Objects) : o.folder [] := .inl rfl

theorem Mirrors.root_dir (mirrors : Mirrors root t o) : t root = some .dir := by
  have dir := (mirrors.dirs []).mpr (folder_nil o)
  rwa [List.append_nil] at dir

theorem Mirrors.above_root (mirrors : Mirrors root t o) {path : Path} (above : path <+: root) :
    t path = some .dir := by
  obtain ⟨rest, rfl⟩ := above
  by_cases last : rest = []
  · have dir := mirrors.root_dir
    rwa [last, List.append_nil] at dir
  · exact mirrors.sound.above _ (by simp [mirrors.root_dir]) last

/-- A path above a path below the root lies above the root or below it. -/
theorem prefix_append_cases {path root key : Path} (below : path <+: root ++ key) :
    path <+: root ∨ ∃ k, path = root ++ k ∧ k <+: key := by
  obtain above | ⟨k, rfl⟩ := List.prefix_or_prefix_of_prefix below (List.prefix_append root key)
  · exact .inl above
  · exact .inr ⟨k, rfl, (List.prefix_append_right_inj root).mp below⟩

/-- The only files on the way to a key are objects above it. -/
theorem Mirrors.file_above (mirrors : Mirrors root t o) {path : Path} {x : Stored}
    (file : t path = some (.file x)) (below : path <+: root ++ key) :
    ∃ k, path = root ++ k ∧ k <+: key ∧ o.stored k = some x := by
  rcases prefix_append_cases below with above | ⟨k, rfl, inside⟩
  · rw [mirrors.above_root above] at file
    cases file
  · exact ⟨k, rfl, inside, (mirrors.files k x).mp file⟩

theorem Mirrors.stored_nil (mirrors : Mirrors root t o) : o.stored [] = none := by
  cases here : o.stored [] with
  | none => rfl
  | some x =>
      have file := (mirrors.files [] x).mpr here
      rw [(mirrors.dirs []).mpr (folder_nil o)] at file
      cases file

theorem obstacle_some {q : Path} (found : o.obstacle key = some q) :
    q <+: key.dropLast ∧ ∃ x, o.stored q = some x := by
  have here := List.find?_some found
  have mem := List.mem_of_find?_eq_some found
  exact ⟨(List.mem_inits _ _).mp mem, Option.isSome_iff_exists.mp here⟩

theorem obstacle_none (found : o.obstacle key = none) {q : Path} (above : q <+: key.dropLast) :
    o.stored q = none := by
  have nothing := List.find?_eq_none.mp found q ((List.mem_inits _ _).mpr above)
  exact Option.not_isSome_iff_eq_none.mp nothing

/-- What is found at a key. -/
theorem Mirrors.stat_key (mirrors : Mirrors root t o) (key : Path) :
    stat t (root ++ key) =
      match o.stored key with
      | some x => .ok (.file x)
      | none =>
          if o.folder key then .ok .dir
          else if (o.obstacle key).isSome then .error .notDirectory
          else .error .notFound := by
  cases here : o.stored key with
  | some x => exact (stat_ok mirrors.sound).mpr ((mirrors.files key x).mpr here)
  | none =>
      by_cases folder : o.folder key
      · simp only [if_pos folder]
        exact (stat_ok mirrors.sound).mpr ((mirrors.dirs key).mpr folder)
      · simp only [if_neg folder]
        have missing : t (root ++ key) = none := by
          cases there : t (root ++ key) with
          | none => rfl
          | some node =>
              cases node with
              | dir => exact absurd ((mirrors.dirs key).mp there) folder
              | file x => simp [(mirrors.files key x).mp there] at here
        have proper : key ≠ [] := fun same => folder (same ▸ folder_nil o)
        cases found : o.obstacle key with
        | some q =>
            obtain ⟨above, x, stored⟩ := obstacle_some found
            have file := (mirrors.files q x).mpr stored
            have below : root ++ q <+: root ++ key :=
              (List.prefix_append_right_inj root).mpr (above.trans (List.dropLast_prefix key))
            refine stat_blocked mirrors.sound file below fun same => ?_
            rw [same, missing] at file
            cases file
        | none =>
            refine stat_missing missing ?_
            rintro ⟨path, x, below, file⟩
            obtain ⟨k, rfl, inside, stored⟩ := mirrors.file_above file below
            have other : k ≠ key := by
              rintro rfl
              rw [here] at stored
              cases stored
            have above : k <+: key.dropLast := by
              rw [← List.dropLast_append_getLast proper] at inside
              refine (List.prefix_concat_iff.mp inside).resolve_left fun same => other ?_
              exact same.trans (List.dropLast_append_getLast proper)
            rw [obstacle_none found above] at stored
            cases stored

end Mirrors

/-! ### Uploads -/

section Upload

variable {root : Path} {t : Disk} {o : Objects} {key : Path}

/-- The tree after an upload. -/
def placed (root : Path) (t : Disk) (key : Path) (x : Stored) : Disk :=
  Function.update (fill t (root ++ key.dropLast)) (root ++ key) (some (.file x))

theorem dropLast_prefix_iff {k : Path} (proper : key ≠ []) :
    k <+: key.dropLast ↔ k <+: key ∧ k ≠ key := by
  have whole := List.dropLast_append_getLast proper
  constructor
  · intro above
    refine ⟨above.trans (List.dropLast_prefix key), ?_⟩
    rintro rfl
    have length := above.length_le
    rw [List.length_dropLast] at length
    exact absurd (List.length_pos_iff.mpr proper) (by omega)
  · rintro ⟨below, other⟩
    rw [← whole] at below
    exact (List.prefix_concat_iff.mp below).resolve_left fun same => other (same.trans whole)

theorem fill_key (t : Disk) (root : Path) {k k' : Path} :
    fill t (root ++ k) (root ++ k') = if k' <+: k then some .dir else t (root ++ k') := by
  simp only [fill, List.prefix_append_right_inj]

/-- No object lies above the key and nothing below it: it becomes an object. -/
theorem mirrors_placed (mirrors : Mirrors root t o) (open_ : o.obstacle key = none)
    (noFolder : ¬ o.folder key) (x : Stored) :
    Mirrors root (placed root t key x) ⟨Function.update o.stored key (some x), key :: o.uploaded⟩ := by
  have proper : key ≠ [] := fun same => noFolder (same ▸ folder_nil o)
  have whole := List.dropLast_append_getLast proper
  have target : root ++ key = (root ++ key.dropLast) ++ [key.getLast proper] := by
    rw [List.append_assoc, whole]
  have notAbove : ¬ key <+: key.dropLast := fun above =>
    ((dropLast_prefix_iff proper).mp above).2 rfl
  have apart : ∀ {key'}, key' ≠ key → root ++ key' ≠ root ++ key :=
    fun other same => other (List.append_cancel_left same)
  have here : ∀ {key'}, key' ≠ key → placed root t key x (root ++ key') =
      if key' <+: key.dropLast then some .dir else t (root ++ key') := by
    intro key' other
    rw [placed, Function.update_of_ne (apart other), fill_key]
  refine ⟨?_, fun key' y => ?_, fun key' => ?_⟩
  · rw [placed, target]
    refine sound_write (sound_fill mirrors.sound _) (if_pos (List.prefix_refl _)) ?_ x
    rw [← target, fill_key, if_neg notAbove]
    exact fun dir => noFolder ((mirrors.dirs key).mp dir)
  · by_cases same : key' = key
    · subst same
      change Function.update _ _ _ _ = _ ↔ Function.update _ _ _ _ = _
      rw [Function.update_self, Function.update_self]
      simp
    · rw [here same]
      change _ ↔ Function.update o.stored key (some x) key' = some y
      rw [Function.update_of_ne same]
      split
      · next above => simp [obstacle_none open_ above]
      · exact mirrors.files key' y
  · by_cases same : key' = key
    · subst same
      rw [placed, Function.update_self]
      refine iff_of_false (by simp) ?_
      rintro (empty | ⟨k, mem, below, other⟩)
      · exact proper empty
      · rcases List.mem_cons.mp mem with rfl | mem
        · exact other rfl
        · exact noFolder (.inr ⟨k, mem, below, other⟩)
    · rw [here same]
      by_cases above : key' <+: key.dropLast
      · rw [if_pos above]
        refine iff_of_true rfl (.inr ⟨key, List.mem_cons_self .., ?_⟩)
        exact (dropLast_prefix_iff proper).mp above
      · rw [if_neg above, mirrors.dirs]
        refine or_congr_right ⟨?_, ?_⟩
        · rintro ⟨k, mem, below⟩
          exact ⟨k, List.mem_cons_of_mem _ mem, below⟩
        · rintro ⟨k, mem, below⟩
          rcases List.mem_cons.mp mem with rfl | mem
          · exact absurd ((dropLast_prefix_iff proper).mpr below) above
          · exact ⟨k, mem, below⟩

/-- Outside of the root nothing changes. -/
def Outside (root : Path) (t t' : Disk) : Prop := ∀ path, ¬ root <+: path → t' path = t path

theorem outside_placed (mirrors : Mirrors root t o) (key : Path) (x : Stored) :
    Outside root t (placed root t key x) := by
  intro path out
  have apart : path ≠ root ++ key := by
    rintro rfl
    exact out (List.prefix_append root key)
  rw [placed, Function.update_of_ne apart, fill]
  split
  · next below =>
    rcases prefix_append_cases below with above | ⟨k, rfl, -⟩
    · exact (mirrors.above_root above).symm
    · exact absurd (List.prefix_append root k) out
  · rfl

/-- The directories above a key, from the end. -/
theorem dropLast_key (proper : key ≠ []) : (root ++ key).dropLast = root ++ key.dropLast :=
  List.dropLast_append_of_ne_nil proper

/-- An upload that an object or a folder prevents changes nothing. -/
theorem placeFile_error (mirrors : Mirrors root t o) {x : Stored} {e : FileTree.Error}
    (failed : o.upload key x = .error e) : placeFile (root ++ key) x t = (.error e, t) := by
  rw [Objects.upload] at failed
  rw [placeFile]
  cases found : o.obstacle key with
  | some q =>
      rw [found] at failed
      obtain rfl := Except.error.inj failed
      obtain ⟨above, y, stored⟩ := obstacle_some found
      have proper : key ≠ [] := by
        rintro rfl
        rw [List.dropLast_nil, List.prefix_nil] at above
        rw [above, mirrors.stored_nil] at stored
        cases stored
      have file := (mirrors.files q y).mpr stored
      have below : root ++ q <+: (root ++ key).dropLast.reverse.reverse := by
        rw [List.reverse_reverse, dropLast_key proper]
        exact (List.prefix_append_right_inj root).mpr above
      rw [makeDirs_blocked mirrors.sound file below]
      simp only [List.reverse_reverse, dropLast_key proper, List.append_cancel_left_eq]
  | none =>
      rw [found] at failed
      by_cases folder : o.folder key
      · simp only [if_pos folder] at failed
        obtain rfl := Except.error.inj failed
        have dir := (mirrors.dirs key).mpr folder
        have parent : t (root ++ key).dropLast = some .dir := by
          by_cases empty : root ++ key = []
          · rw [empty, List.dropLast_nil]
            exact mirrors.sound.root
          · exact mirrors.sound.above [(root ++ key).getLast empty]
              (by rw [List.dropLast_append_getLast]; simp [dir]) (by simp)
        have free : ¬ Blocked t (root ++ key).dropLast.reverse.reverse := by
          rw [List.reverse_reverse]
          rintro ⟨path, y, below, file⟩
          by_cases same : path = (root ++ key).dropLast
          · rw [same, parent] at file
            cases file
          · rw [mirrors.sound.below_file file below same] at parent
            cases parent
        rw [makeDirs_free mirrors.sound free, List.reverse_reverse, fill_dir mirrors.sound parent]
        simp only [write, parentDir_of_some mirrors.sound (by rw [dir]; simp), dir]
      · simp only [if_neg folder] at failed
        cases failed

/-- An upload that nothing prevents puts a file in place. -/
theorem placeFile_ok (mirrors : Mirrors root t o) {x : Stored} (found : o.obstacle key = none)
    (noFolder : ¬ o.folder key) :
    placeFile (root ++ key) x t = (.ok (), placed root t key x) := by
  have proper : key ≠ [] := fun same => noFolder (same ▸ folder_nil o)
  have target : root ++ key = (root ++ key.dropLast) ++ [key.getLast proper] := by
    rw [List.append_assoc, List.dropLast_append_getLast]
  have free : ¬ Blocked t (root ++ key).dropLast.reverse.reverse := by
    rw [List.reverse_reverse, dropLast_key proper]
    rintro ⟨path, y, below, file⟩
    obtain ⟨k, rfl, inside, stored⟩ := mirrors.file_above file below
    rw [obstacle_none found inside] at stored
    cases stored
  have there : fill t (root ++ key.dropLast) (root ++ key) = t (root ++ key) := by
    rw [fill_key, if_neg fun above => ((dropLast_prefix_iff proper).mp above).2 rfl]
  have parent : parentDir (fill t (root ++ key.dropLast)) (root ++ key) = .ok () := by
    rw [target]
    exact parentDir_concat (sound_fill mirrors.sound _) (if_pos (List.prefix_refl _))
  have written : write (fill t (root ++ key.dropLast)) (root ++ key) x =
      .ok (placed root t key x) := by
    rw [write, parent]
    simp only [there]
    split
    · next dir => exact absurd ((mirrors.dirs key).mp dir) noFolder
    · rfl
  rw [placeFile, makeDirs_free mirrors.sound free, List.reverse_reverse, dropLast_key proper]
  simp only [written]

end Upload

/-! ### Requests -/

section Requests

variable {s : LocalStorage} {t : Disk} {o : Objects}

/-- A request is answered as the object store answers it, which the tree mirrors afterwards. -/
structure Agrees (root : Path) (t : Disk) (x : Except StorageError Answer × Disk)
    (y : Except StorageError Answer × Objects) : Prop where
  answer : x.1 = y.1
  mirrors : Mirrors root x.2 y.2
  outside : Outside root t x.2

theorem agrees_same (mirrors : Mirrors s.root t o) (answer : Except StorageError Answer) :
    Agrees s.root t (answer, t) (answer, o) :=
  ⟨rfl, mirrors, fun _ _ => rfl⟩

theorem getPath_of_none {objectName : String} (out : keyOf s.root objectName = none) :
    getPath s.root objectName = .error refused := by
  rw [getPath_eq, out]

theorem getPath_of_some {objectName : String} {key : Path}
    (inside : keyOf s.root objectName = some key) :
    getPath s.root objectName = .ok (s.root ++ key) := by
  rw [getPath_eq, inside]

theorem serve_upload (mirrors : Mirrors s.root t o) (now : Nat) (objectName : String)
    (content : Bytes) :
    Agrees s.root t (serve s now (.upload objectName content) t)
      (serveObjects s now (.upload objectName content) o) := by
  rw [serve, serveObjects, LocalStorage.uploadBytes]
  cases inside : keyOf s.root objectName with
  | none =>
      rw [getPath_of_none inside]
      exact agrees_same mirrors _
  | some key =>
      rw [getPath_of_some inside]
      simp only []
      cases outcome : o.upload key ⟨content, now⟩ with
      | error e =>
          rw [placeFile_error mirrors outcome]
          exact agrees_same mirrors _
      | ok o' =>
          rw [Objects.upload] at outcome
          cases found : o.obstacle key with
          | some q =>
              rw [found] at outcome
              cases outcome
          | none =>
              rw [found] at outcome
              by_cases folder : o.folder key
              · simp only [if_pos folder] at outcome
                cases outcome
              · simp only [if_neg folder] at outcome
                obtain rfl := Except.ok.inj outcome
                rw [placeFile_ok mirrors found folder]
                exact ⟨rfl, mirrors_placed mirrors found folder _, outside_placed mirrors key _⟩

theorem serve_download (mirrors : Mirrors s.root t o) (now : Nat) (objectName : String) :
    Agrees s.root t (serve s now (.download objectName) t)
      (serveObjects s now (.download objectName) o) := by
  rw [serve, serveObjects, LocalStorage.downloadBytes]
  cases inside : keyOf s.root objectName with
  | none =>
      rw [getPath_of_none inside]
      exact agrees_same mirrors _
  | some key =>
      rw [getPath_of_some inside]
      simp only [FileTree.read, mirrors.stat_key key, Objects.download]
      cases o.stored key with
      | some x => exact agrees_same mirrors _
      | none =>
          by_cases folder : o.folder key
          · simp only [if_pos folder]
            exact agrees_same mirrors _
          · simp only [if_neg folder]
            by_cases found : (o.obstacle key).isSome = true
            · simp only [if_pos found]
              exact agrees_same mirrors _
            · simp only [if_neg found]
              exact agrees_same mirrors _

theorem serve_head (mirrors : Mirrors s.root t o) (now : Nat) (objectName : String) :
    Agrees s.root t (serve s now (.head objectName) t)
      (serveObjects s now (.head objectName) o) := by
  rw [serve, serveObjects, LocalStorage.headObject]
  cases inside : keyOf s.root objectName with
  | none =>
      rw [getPath_of_none inside]
      exact agrees_same mirrors _
  | some key =>
      rw [getPath_of_some inside]
      simp only [mirrors.stat_key key, Objects.head]
      cases o.stored key with
      | some x => exact agrees_same mirrors _
      | none =>
          by_cases folder : o.folder key
          · simp only [if_pos folder]
            exact agrees_same mirrors _
          · simp only [if_neg folder]
            by_cases found : (o.obstacle key).isSome = true
            · simp only [if_pos found]
              exact agrees_same mirrors _
            · simp only [if_neg found]
              exact agrees_same mirrors _

/-- Deleting an object takes its file away. -/
theorem mirrors_unlink {root key : Path} (mirrors : Mirrors root t o) {x : Stored}
    (here : o.stored key = some x) :
    Mirrors root (Function.update t (root ++ key) none)
      { o with stored := Function.update o.stored key none } := by
  have file := (mirrors.files key x).mpr here
  have apart : ∀ {key'}, key' ≠ key → root ++ key' ≠ root ++ key :=
    fun other same => other (List.append_cancel_left same)
  refine ⟨sound_unlink mirrors.sound file, fun key' y => ?_, fun key' => ?_⟩
  · change _ ↔ Function.update o.stored key none key' = some y
    by_cases same : key' = key
    · subst same
      rw [Function.update_self, Function.update_self]
      simp
    · rw [Function.update_of_ne (apart same), Function.update_of_ne same]
      exact mirrors.files key' y
  · change _ ↔ o.folder key'
    by_cases same : key' = key
    · subst same
      rw [Function.update_self]
      refine iff_of_false (by simp) fun folder => ?_
      rw [(mirrors.dirs key').mpr folder] at file
      cases file
    · rw [Function.update_of_ne (apart same)]
      exact mirrors.dirs key'

theorem serve_delete (mirrors : Mirrors s.root t o) (now : Nat) (objectName : String) :
    Agrees s.root t (serve s now (.delete objectName) t)
      (serveObjects s now (.delete objectName) o) := by
  rw [serve, serveObjects, LocalStorage.deleteObject]
  cases inside : keyOf s.root objectName with
  | none =>
      rw [getPath_of_none inside]
      exact agrees_same mirrors _
  | some key =>
      rw [getPath_of_some inside]
      simp only [unlink, mirrors.stat_key key, Objects.delete]
      cases here : o.stored key with
      | some x =>
          refine ⟨rfl, mirrors_unlink mirrors here, fun path out => ?_⟩
          refine Function.update_of_ne ?_ _ _
          rintro rfl
          exact out (List.prefix_append s.root key)
      | none =>
          by_cases folder : o.folder key
          · simp only [if_pos folder]
            exact agrees_same mirrors _
          · simp only [if_neg folder]
            by_cases found : (o.obstacle key).isSome = true
            · simp only [if_pos found]
              exact agrees_same mirrors _
            · simp only [if_neg found]
              exact agrees_same mirrors _

theorem serve_agrees (mirrors : Mirrors s.root t o) (now : Nat) (r : Request) :
    Agrees s.root t (serve s now r t) (serveObjects s now r o) := by
  cases r with
  | upload objectName content => exact serve_upload mirrors now objectName content
  | download objectName => exact serve_download mirrors now objectName
  | head objectName => exact serve_head mirrors now objectName
  | delete objectName => exact serve_delete mirrors now objectName

theorem answers_agree (mirrors : Mirrors s.root t o) (requests : List (Nat × Request)) :
    (answers (serve s) requests t).1 = (answers (serveObjects s) requests o).1 ∧
      Mirrors s.root (answers (serve s) requests t).2 (answers (serveObjects s) requests o).2 ∧
      Outside s.root t (answers (serve s) requests t).2 := by
  induction requests generalizing t o with
  | nil => exact ⟨rfl, mirrors, fun _ _ => rfl⟩
  | cons entry requests ih =>
      have first := serve_agrees mirrors entry.1 entry.2
      obtain ⟨same, mirrors', outside⟩ := ih first.mirrors
      refine ⟨?_, mirrors', fun path out => ?_⟩
      · change _ :: _ = _ :: _
        rw [first.answer, same]
      · exact (outside path out).trans (first.outside path out)

end Requests

/-! ### Runs -/

/-- The root is an empty directory. -/
structure Fresh (root : Path) (t : Disk) : Prop where
  sound : Sound t
  dir : t root = some .dir
  empty : ∀ key, key ≠ [] → t (root ++ key) = none

theorem mirrors_fresh {root : Path} {t : Disk} (fresh : Fresh root t) :
    Mirrors root t .empty := by
  refine ⟨fresh.sound, fun key x => ?_, fun key => ?_⟩
  · refine iff_of_false (fun file => ?_) nofun
    by_cases top : key = []
    · rw [top, List.append_nil, fresh.dir] at file
      cases file
    · rw [fresh.empty key top] at file
      cases file
  · by_cases top : key = []
    · subst top
      rw [List.append_nil]
      exact iff_of_true fresh.dir (folder_nil _)
    · rw [fresh.empty key top]
      refine iff_of_false nofun ?_
      rintro (same | ⟨k, mem, -⟩)
      · exact top same
      · cases mem

/-- Every object was put there by an upload of its content at the time it shows. -/
def Dated (history : List (Nat × Request)) (o : Objects) : Prop :=
  ∀ key x, o.stored key = some x →
    ∃ objectName, (x.modified, .upload objectName x.content) ∈ history

theorem dated_serve {s : LocalStorage} {history : List (Nat × Request)} {o : Objects}
    (dated : Dated history o) (now : Nat) (r : Request) :
    Dated (history ++ [(now, r)]) (serveObjects s now r o).2 := by
  have same : Dated (history ++ [(now, r)]) o := by
    intro key x here
    obtain ⟨objectName, mem⟩ := dated key x here
    exact ⟨objectName, List.mem_append_left _ mem⟩
  cases r with
  | upload objectName content =>
      rw [serveObjects]
      split
      · exact same
      · next key inside =>
        split
        · exact same
        · next o' outcome =>
          intro key' x here
          rw [Objects.upload] at outcome
          split at outcome
          · cases outcome
          · split at outcome
            · cases outcome
            · obtain rfl := Except.ok.inj outcome
              change Function.update o.stored key _ key' = some x at here
              by_cases target : key' = key
              · rw [target, Function.update_self] at here
                obtain rfl := Option.some.inj here
                exact ⟨objectName, by simp⟩
              · rw [Function.update_of_ne target] at here
                exact same key' x here
  | download objectName =>
      rw [serveObjects]
      split
      · exact same
      · split
        · exact same
        · exact same
  | head objectName =>
      rw [serveObjects]
      split
      · exact same
      · exact same
  | delete objectName =>
      rw [serveObjects]
      split
      · exact same
      · next key inside =>
        split
        · exact same
        · next o' outcome =>
          rw [Objects.delete] at outcome
          split at outcome
          · obtain rfl := Except.ok.inj outcome
            intro key' x here
            change Function.update o.stored key none key' = some x at here
            by_cases target : key' = key
            · rw [target, Function.update_self] at here
              cases here
            · rw [Function.update_of_ne target] at here
              exact same key' x here
          · split at outcome
            · cases outcome
            · obtain rfl := Except.ok.inj outcome
              exact same

theorem dated_answers {s : LocalStorage} {history : List (Nat × Request)} {o : Objects}
    (dated : Dated history o) (requests : List (Nat × Request)) :
    Dated (history ++ requests) (answers (serveObjects s) requests o).2 := by
  induction requests generalizing history o with
  | nil =>
      rw [List.append_nil]
      exact dated
  | cons entry requests ih =>
      have later := ih (dated_serve (s := s) (o := o) dated entry.1 entry.2)
      rw [List.append_assoc] at later
      exact later

/-- An etag shows the time and the length. -/
theorem etag_injective {x y : Stored} (same : etag x = etag y) :
    x.modified = y.modified ∧ x.content.length = y.content.length := by
  have chars := congrArg String.toList same
  simp only [etag, String.toList_append, List.append_assoc, Python.toString_toList] at chars
  obtain ⟨time, -, length⟩ :=
    (List.append_cons_inj_of_notMem (Python.notMem_toDigits rfl _) (Python.notMem_toDigits rfl _)).mp
      chars
  exact ⟨Python.toDigits_injective time, Python.toDigits_injective length⟩

/-- What a head and a download say about a name. -/
theorem found_content {s : LocalStorage} {t : Disk} {o : Objects} (mirrors : Mirrors s.root t o)
    {objectName e : String} {length : Nat}
    (found : s.headObject objectName t = .ok (some (e, length))) :
    ∃ key x, o.stored key = some x ∧ etag x = e ∧
      s.downloadBytes objectName t = .ok x.content := by
  rw [LocalStorage.headObject] at found
  cases inside : keyOf s.root objectName with
  | none =>
      rw [getPath_of_none inside] at found
      cases found
  | some key =>
      rw [getPath_of_some inside] at found
      simp only [] at found
      split at found
      · next x there =>
        obtain ⟨rfl, -⟩ := Prod.mk.inj (Option.some.inj (Except.ok.inj found))
        have file := (mirrors.files key x).mp ((stat_ok mirrors.sound).mp there)
        refine ⟨key, x, file, rfl, ?_⟩
        rw [LocalStorage.downloadBytes, getPath_of_some inside]
        simp only [FileTree.read, there]
      · cases found

/-- If the clock is never read twice at the same time, equal etags mean equal contents, whatever
names they are asked for and whatever has happened in between. -/
theorem etag_determines_content (s : LocalStorage) (t : Disk) (fresh : Fresh s.root t)
    (first later : List (Nat × Request))
    (ticking : (first ++ later).Pairwise fun x y => x.1 < y.1) (objectName objectName' e : String)
    (length length' : Nat)
    (found : s.headObject objectName (answers (serve s) first t).2 = .ok (some (e, length)))
    (found' : s.headObject objectName' (answers (serve s) (first ++ later) t).2 =
      .ok (some (e, length'))) :
    s.downloadBytes objectName (answers (serve s) first t).2 =
      s.downloadBytes objectName' (answers (serve s) (first ++ later) t).2 := by
  have mirrors := (answers_agree (mirrors_fresh fresh) first).2.1
  have mirrors' := (answers_agree (mirrors_fresh fresh) (first ++ later)).2.1
  obtain ⟨key, x, stored, tagged, content⟩ := found_content mirrors found
  obtain ⟨key', x', stored', tagged', content'⟩ := found_content mirrors' found'
  have nothing : Dated [] .empty := nofun
  obtain ⟨name, mem⟩ := dated_answers nothing first key x stored
  obtain ⟨name', mem'⟩ := dated_answers nothing (first ++ later) key' x' stored'
  obtain ⟨time, -⟩ := etag_injective (tagged.trans tagged'.symm)
  have entry : (x.modified, Request.upload name x.content) ∈ first ++ later :=
    List.mem_append_left _ mem
  have entry' : (x'.modified, Request.upload name' x'.content) ∈ first ++ later := mem'
  have distinct : ((first ++ later).map Prod.fst).Nodup :=
    List.pairwise_map.mpr (ticking.imp fun earlier => Nat.ne_of_lt earlier)
  have same := List.inj_on_of_nodup_map distinct entry mem' time
  obtain ⟨-, written⟩ := Request.upload.inj (Prod.mk.inj same).2
  rw [content, content', written]

/-! ### A run -/

/-- A tree with an empty directory. -/
def vacant : Disk := fun path => if path = [] ∨ path = ["srv"] then some .dir else none

def atSrv : LocalStorage where
  root := ["srv"]
  config := none
  lib := StorageUrl.library
  settings := StorageUrl.filesApi

theorem fresh_vacant : Fresh atSrv.root vacant := by
  refine ⟨⟨rfl, fun path part here => ?_⟩, rfl, fun key top => ?_⟩
  · have shown : path ++ [part] = [] ∨ path ++ [part] = ["srv"] := by
      by_contra other
      exact here (if_neg other)
    rcases shown with empty | single
    · simp at empty
    · cases path with
      | nil => rfl
      | cons name path => simp at single
  · refine if_neg ?_
    rintro (empty | single)
    · exact top (List.append_eq_nil_iff.mp empty).2
    · exact top (List.cons.inj single).2

theorem etag_determines_content_vacant :
    atSrv.downloadBytes "a" (answers (serve atSrv) [(1, .upload "a" [7])] vacant).2 =
      atSrv.downloadBytes "./a"
        (answers (serve atSrv) ([(1, .upload "a" [7])] ++ [(2, .upload "b" [8])]) vacant).2 :=
  etag_determines_content atSrv vacant fresh_vacant [(1, .upload "a" [7])] [(2, .upload "b" [8])]
    (by simp) "a" "./a" "1-1" 1 1 rfl rfl

end AcojWorker.LocalObjects
