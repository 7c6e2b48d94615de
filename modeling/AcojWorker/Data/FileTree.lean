import Mathlib.Data.List.Basic
import Mathlib.Data.List.Infix
import Mathlib.Logic.Function.Basic

/-!
# A tree of files and directories

A tree says what there is at each path. The system finds a path by walking down from the root, so
that a file in the way and a missing directory are told apart. In a sound tree whatever exists lies
in a directory, and then a path is found exactly if the tree has something there.
-/

namespace FileTree

inductive Node (α : Type) where
  | dir
  | file (content : α)

/-- What there is at each path below the root. -/
abbrev Tree (ν α : Type) : Type := List ν → Option (Node α)

inductive Error where
  | notFound
  | notDirectory
  | isDirectory
  | fileExists
deriving DecidableEq

section Operations

variable {ν α : Type} [DecidableEq ν]

/-- The walk from `above` down a path. -/
def statFrom (t : Tree ν α) (above : List ν) : List ν → Except Error (Node α)
  | [] =>
      match t above with
      | some node => .ok node
      | none => .error .notFound
  | part :: path =>
      match t above with
      | some .dir => statFrom t (above ++ [part]) path
      | some (.file _) => .error .notDirectory
      | none => .error .notFound

def stat (t : Tree ν α) (path : List ν) : Except Error (Node α) := statFrom t [] path

/-- The directory of a path has to be there. -/
def parentDir (t : Tree ν α) (path : List ν) : Except Error Unit :=
  match stat t path.dropLast with
  | .ok .dir => .ok ()
  | .ok (.file _) => .error .notDirectory
  | .error e => .error e

def mkdir (t : Tree ν α) (path : List ν) : Except Error (Tree ν α) :=
  match parentDir t path with
  | .error e => .error e
  | .ok _ =>
      match t path with
      | some _ => .error .fileExists
      | none => .ok (Function.update t path (some .dir))

def write (t : Tree ν α) (path : List ν) (content : α) : Except Error (Tree ν α) :=
  match parentDir t path with
  | .error e => .error e
  | .ok _ =>
      match t path with
      | some .dir => .error .isDirectory
      | _ => .ok (Function.update t path (some (.file content)))

def read (t : Tree ν α) (path : List ν) : Except Error α :=
  match stat t path with
  | .ok (.file content) => .ok content
  | .ok .dir => .error .isDirectory
  | .error e => .error e

def unlink (t : Tree ν α) (path : List ν) : Except Error (Tree ν α) :=
  match stat t path with
  | .ok (.file _) => .ok (Function.update t path none)
  | .ok .dir => .error .isDirectory
  | .error e => .error e

def isDir (t : Tree ν α) (path : List ν) : Bool :=
  match stat t path with
  | .ok .dir => true
  | _ => false

/-- `mkdir` of a directory that may exist already. -/
def mkdirExisting (t : Tree ν α) (path : List ν) : Except Error Unit × Tree ν α :=
  match mkdir t path with
  | .ok t' => (.ok (), t')
  | .error e => if e ≠ .notFound ∧ isDir t path then (.ok (), t) else (.error e, t)

/-- A directory is made with all its parents; its path is given from the end. -/
def makeDirs (t : Tree ν α) : List ν → Except Error Unit × Tree ν α
  | [] => mkdirExisting t []
  | part :: up =>
      match mkdir t (up.reverse ++ [part]) with
      | .error .notFound =>
          match makeDirs t up with
          | (.ok _, t₁) => mkdirExisting t₁ (up.reverse ++ [part])
          | (.error e, t₁) => (.error e, t₁)
      | _ => mkdirExisting t (up.reverse ++ [part])

end Operations

/-! ### Sound trees -/

variable {ν α : Type}

/-- The root is a directory, and whatever exists lies in a directory. -/
structure Sound (t : Tree ν α) : Prop where
  root : t [] = some .dir
  parent : ∀ path part, t (path ++ [part]) ≠ none → t path = some .dir

/-- A file lies on the way to a path, or is there. -/
def Blocked (t : Tree ν α) (path : List ν) : Prop := ∃ q a, q <+: path ∧ t q = some (.file a)

variable {t : Tree ν α} {path : List ν}

theorem Sound.above (sound : Sound t) (rest : List ν) (here : t (path ++ rest) ≠ none)
    (proper : rest ≠ []) : t path = some .dir := by
  induction rest using List.reverseRecOn with
  | nil => exact absurd rfl proper
  | append_singleton rest part ih =>
      rw [← List.append_assoc] at here
      have dir := sound.parent _ part here
      by_cases last : rest = []
      · rwa [last, List.append_nil] at dir
      · exact ih (by simp [dir]) last

/-- Nothing is below a file. -/
theorem Sound.below_file (sound : Sound t) {q : List ν} {a : α} (file : t q = some (.file a))
    (below : q <+: path) (other : q ≠ path) : t path = none := by
  obtain ⟨rest, rfl⟩ := below
  by_contra here
  have dir := sound.above rest here fun nothing => other (by rw [nothing, List.append_nil])
  rw [file] at dir
  cases dir

theorem statFrom_ok (sound : Sound t) (above path : List ν) (node : Node α) :
    statFrom t above path = .ok node ↔ t (above ++ path) = some node := by
  induction path generalizing above with
  | nil =>
      rw [statFrom, List.append_nil]
      cases t above with
      | none => simp
      | some there => simp
  | cons part path ih =>
      rw [statFrom]
      have missing : t above ≠ some .dir → t (above ++ part :: path) ≠ some node := by
        intro noDir here
        exact noDir (sound.above _ (by rw [here]; simp) (List.cons_ne_nil part path))
      cases there : t above with
      | none => simpa using missing (by simp [there])
      | some found =>
          cases found with
          | dir =>
              have below := ih (above ++ [part])
              rw [List.append_assoc] at below
              exact below
          | file a => simpa using missing (by simp [there])

theorem stat_ok (sound : Sound t) {node : Node α} : stat t path = .ok node ↔ t path = some node :=
  statFrom_ok sound [] path node

theorem statFrom_blocked (sound : Sound t) (above : List ν) {q : List ν} {a : α}
    (file : t (above ++ q) = some (.file a)) (below : q <+: path) (other : q ≠ path) :
    statFrom t above path = .error .notDirectory := by
  induction q generalizing above path with
  | nil =>
      cases path with
      | nil => exact absurd rfl other
      | cons part path =>
          rw [List.append_nil] at file
          rw [statFrom, file]
  | cons part q ih =>
      obtain ⟨rest, rfl⟩ := below
      have dir : t above = some .dir :=
        sound.above (part :: q) (by rw [file]; simp) (List.cons_ne_nil part q)
      rw [List.cons_append, statFrom, dir]
      refine ih (above ++ [part]) ?_ (List.prefix_append q rest) fun same => other ?_
      · rw [List.append_assoc]
        exact file
      · rw [List.cons_append, ← same]

theorem statFrom_missing (above : List ν) (missing : t (above ++ path) = none)
    (free : ∀ q a, q <+: path → t (above ++ q) ≠ some (.file a)) :
    statFrom t above path = .error .notFound := by
  induction path generalizing above with
  | nil =>
      rw [List.append_nil] at missing
      rw [statFrom, missing]
  | cons part path ih =>
      rw [statFrom]
      cases there : t above with
      | none => rfl
      | some found =>
          cases found with
          | dir =>
              refine ih (above ++ [part]) (by rw [List.append_assoc]; exact missing)
                fun q a below => ?_
              rw [List.append_assoc]
              exact free (part :: q) a (List.cons_prefix_cons.mpr ⟨rfl, below⟩)
          | file a => exact absurd (by rw [List.append_nil]; exact there) (free [] a List.nil_prefix)

theorem stat_blocked (sound : Sound t) {q : List ν} {a : α} (file : t q = some (.file a))
    (below : q <+: path) (other : q ≠ path) : stat t path = .error .notDirectory :=
  statFrom_blocked sound [] file below other

theorem stat_missing (missing : t path = none) (free : ¬ Blocked t path) :
    stat t path = .error .notFound :=
  statFrom_missing [] missing fun q a below file => free ⟨q, a, below, file⟩

/-! ### Operations on sound trees -/

theorem parentDir_concat (sound : Sound t) {part : ν} (dir : t path = some .dir) :
    parentDir t (path ++ [part]) = .ok () := by
  rw [parentDir, List.dropLast_concat, (stat_ok sound).mpr dir]

theorem parentDir_nil (sound : Sound t) : parentDir t [] = .ok () := by
  rw [parentDir, List.dropLast_nil, (stat_ok sound).mpr sound.root]

theorem parentDir_of_some (sound : Sound t) (here : t path ≠ none) : parentDir t path = .ok () := by
  cases path using List.reverseRecOn with
  | nil => exact parentDir_nil sound
  | append_singleton path part => exact parentDir_concat sound (sound.parent path part here)

theorem isDir_iff (sound : Sound t) : isDir t path = true ↔ t path = some .dir := by
  rw [isDir, ← stat_ok sound]
  split
  · next h => simp [h]
  · next h => exact iff_of_false (by simp) h

theorem concat_longer (path : List ν) (part : ν) : ¬ path ++ [part] <+: path := by
  intro below
  have length := below.length_le
  rw [List.length_append, List.length_singleton] at length
  omega

section Sound

variable [DecidableEq ν]

/-- All prefixes of a path become directories. -/
def fill (t : Tree ν α) (path : List ν) : Tree ν α :=
  fun q => if q <+: path then some .dir else t q

theorem mkdirExisting_dir (sound : Sound t) (dir : t path = some .dir) :
    mkdirExisting t path = (.ok (), t) := by
  have taken : mkdir t path = .error .fileExists := by
    rw [mkdir, parentDir_of_some sound (by simp [dir]), dir]
  rw [mkdirExisting, taken]
  exact if_pos ⟨by decide, (isDir_iff sound).mpr dir⟩

theorem fill_dir (sound : Sound t) (dir : t path = some .dir) : fill t path = t := by
  funext q
  rw [fill]
  split
  · next below =>
    obtain ⟨rest, rfl⟩ := below
    by_cases last : rest = []
    · rw [last, List.append_nil] at dir
      exact dir.symm
    · exact (sound.above _ (by simp [dir]) last).symm
  · rfl

theorem update_fill (t : Tree ν α) (path : List ν) (part : ν) :
    Function.update (fill t path) (path ++ [part]) (some .dir) = fill t (path ++ [part]) := by
  funext q
  by_cases same : q = path ++ [part]
  · subst same
    rw [Function.update_self, fill, if_pos (List.prefix_refl _)]
  · rw [Function.update_of_ne same, fill, fill]
    have below : q <+: path ++ [part] ↔ q <+: path := by
      rw [List.prefix_concat_iff]
      exact or_iff_right same
    simp only [below]

theorem sound_fill (sound : Sound t) (path : List ν) : Sound (fill t path) := by
  refine ⟨if_pos List.nil_prefix, fun q part here => ?_⟩
  rw [fill]
  split
  · rfl
  · next apart =>
    have new : ¬ q ++ [part] <+: path := fun below => apart ((List.prefix_append q [part]).trans below)
    rw [fill, if_neg new] at here
    exact sound.parent q part here

/-- Directories can be made unless a file is in the way. -/
theorem makeDirs_free (sound : Sound t) {up : List ν} (free : ¬ Blocked t up.reverse) :
    makeDirs t up = (.ok (), fill t up.reverse) := by
  induction up with
  | nil =>
      rw [makeDirs, mkdirExisting_dir sound sound.root]
      exact congrArg _ (fill_dir sound sound.root).symm
  | cons part up ih =>
      rw [List.reverse_cons] at free ⊢
      have freeUp : ¬ Blocked t up.reverse := by
        rintro ⟨q, a, below, file⟩
        exact free ⟨q, a, below.trans (List.prefix_append ..), file⟩
      rw [makeDirs]
      cases there : t (up.reverse ++ [part]) with
      | some found =>
          cases found with
          | file a => exact absurd ⟨_, a, List.prefix_refl _, there⟩ free
          | dir =>
              have taken : mkdir t (up.reverse ++ [part]) = .error .fileExists := by
                rw [mkdir, parentDir_of_some sound (by simp [there]), there]
              rw [taken]
              change mkdirExisting t _ = _
              rw [mkdirExisting_dir sound there, fill_dir sound there]
      | none =>
          cases parent : t up.reverse with
          | some found =>
              cases found with
              | file a => exact absurd ⟨_, a, List.prefix_append .., parent⟩ free
              | dir =>
                  have made : mkdir t (up.reverse ++ [part]) =
                      .ok (Function.update t (up.reverse ++ [part]) (some .dir)) := by
                    rw [mkdir, parentDir_concat sound parent, there]
                  have filled := update_fill t up.reverse part
                  rw [fill_dir sound parent] at filled
                  rw [made]
                  change mkdirExisting t _ = _
                  rw [mkdirExisting, made, filled]
          | none =>
              have missing : mkdir t (up.reverse ++ [part]) = .error .notFound := by
                rw [mkdir, parentDir, List.dropLast_concat, stat_missing parent freeUp]
              have filled : fill t up.reverse (up.reverse ++ [part]) = none := by
                rw [fill, if_neg (concat_longer _ part), there]
              have here : fill t up.reverse up.reverse = some .dir := if_pos (List.prefix_refl _)
              rw [missing, ih freeUp]
              change mkdirExisting (fill t up.reverse) _ = _
              rw [mkdirExisting, mkdir, parentDir_concat (sound_fill sound up.reverse) here, filled]
              exact congrArg _ (update_fill ..)

/-- A file in the way is found at once, and nothing is changed. -/
theorem makeDirs_blocked (sound : Sound t) {up q : List ν} {a : α} (file : t q = some (.file a))
    (below : q <+: up.reverse) :
    makeDirs t up = (.error (if q = up.reverse then .fileExists else .notDirectory), t) := by
  cases up with
  | nil =>
      rw [List.prefix_nil.mp below, sound.root] at file
      cases file
  | cons part up =>
      rw [List.reverse_cons] at below ⊢
      have noDir : ¬ isDir t (up.reverse ++ [part]) = true := by
        rw [isDir_iff sound]
        intro dir
        by_cases same : q = up.reverse ++ [part]
        · rw [← same, file] at dir
          cases dir
        · rw [sound.below_file file below same] at dir
          cases dir
      have failed : mkdir t (up.reverse ++ [part]) =
          .error (if q = up.reverse ++ [part] then .fileExists else .notDirectory) := by
        by_cases same : q = up.reverse ++ [part]
        · rw [if_pos same, mkdir, ← same, parentDir_of_some sound (by simp [file]), file]
        · rw [if_neg same, mkdir, parentDir, List.dropLast_concat]
          have above : q <+: up.reverse := (List.prefix_concat_iff.mp below).resolve_left same
          by_cases parent : q = up.reverse
          · rw [← parent, (stat_ok sound).mpr file]
          · rw [stat_blocked sound file above parent]
      have ended : mkdirExisting t (up.reverse ++ [part]) =
          (.error (if q = up.reverse ++ [part] then .fileExists else .notDirectory), t) := by
        rw [mkdirExisting, failed]
        exact if_neg fun both => noDir both.2
      rw [makeDirs, failed]
      by_cases same : q = up.reverse ++ [part]
      · rw [if_pos same] at ended ⊢
        exact ended
      · rw [if_neg same] at ended ⊢
        exact ended

theorem sound_write (sound : Sound t) {part : ν} (parent : t path = some .dir)
    (noDir : t (path ++ [part]) ≠ some .dir) (a : α) :
    Sound (Function.update t (path ++ [part]) (some (.file a))) := by
  refine ⟨?_, fun q name here => ?_⟩
  · rw [Function.update_of_ne (by simp)]
    exact sound.root
  · by_cases below : q = path ++ [part]
    · subst below
      rw [Function.update_of_ne (by simp)] at here
      exact absurd (sound.parent _ name here) noDir
    · rw [Function.update_of_ne below]
      by_cases same : q ++ [name] = path ++ [part]
      · rw [(List.append_inj' same rfl).1]
        exact parent
      · rw [Function.update_of_ne same] at here
        exact sound.parent q name here

theorem sound_unlink (sound : Sound t) {a : α} (file : t path = some (.file a)) :
    Sound (Function.update t path none) := by
  have noDir : ∀ q name, t (q ++ [name]) ≠ none → q ≠ path := by
    rintro q name here rfl
    rw [sound.parent q name here] at file
    cases file
  refine ⟨?_, fun q name here => ?_⟩
  · have other : [] ≠ path := by
      rintro rfl
      rw [sound.root] at file
      cases file
    rw [Function.update_of_ne other]
    exact sound.root
  · by_cases same : q ++ [name] = path
    · rw [same, Function.update_self] at here
      exact absurd rfl here
    · rw [Function.update_of_ne same] at here
      rw [Function.update_of_ne (noDir q name here)]
      exact sound.parent q name here

end Sound

end FileTree
