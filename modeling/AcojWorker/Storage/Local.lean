import AcojWorker.Cache.Paths
import AcojWorker.Data.FileTree
import AcojWorker.Storage.Url

/-!
# Objects in a local directory

The local storage keeps each object in a file below its root. It is an object store: names that
lead to one path are one object, an object is what was uploaded last, and names that lead out of
the root are refused. As a directory stays when its last object is deleted, a name that once was a
folder never becomes an object.
-/

namespace AcojWorker.LocalObjects

open Python FileTree StorageUrl
open FileCache (Path parts resolveFrom)

/-! ### The storage -/

/-- A file, with the time of its last write in nanoseconds. -/
structure Stored where
  content : Bytes
  modified : Nat
deriving DecidableEq

abbrev Disk : Type := Tree String Stored

/-- What the storage is made from; without a configuration the settings give the URLs. -/
structure LocalStorage where
  root : Path
  config : Option StorageUrl.Settings
  lib : UrlLibrary
  settings : StorageUrl.Settings

inductive StorageError where
  | value (message : String)
  | os (error : FileTree.Error)
deriving DecidableEq

/-- `path.parents`. -/
def parents : Path → List Path
  | [] => []
  | part :: path => (part :: path).dropLast.inits

/-- `(root / object_name).resolve()`: an absolute name replaces the root. -/
def resolveName (root : Path) (objectName : String) : Path :=
  if objectName.toList.head? = some '/' then resolveFrom [] (parts objectName)
  else resolveFrom root (parts objectName)

def getPath (root : Path) (objectName : String) : Except StorageError Path :=
  let target := resolveName root objectName
  if target ≠ root ∧ ¬ (parents target).contains root then .error (.value "Invalid object name")
  else .ok target

def etag (x : Stored) : String := toString x.modified ++ "-" ++ toString x.content.length

/-- The directories above a file are made, and the file is written. -/
def placeFile (target : Path) (x : Stored) (t : Disk) : Except FileTree.Error Unit × Disk :=
  match makeDirs t target.dropLast.reverse with
  | (.error e, t₁) => (.error e, t₁)
  | (.ok _, t₁) =>
      match write t₁ target x with
      | .error e => (.error e, t₁)
      | .ok t₂ => (.ok (), t₂)

namespace LocalStorage

variable (s : LocalStorage)

def getObjectUrl (objectName : String) : List Char :=
  match s.config with
  | none => buildFileAccessUrl s.lib s.settings objectName.toList none none
  | some config => buildFileAccessUrl s.lib s.settings objectName.toList (some config.baseUrl)
      (some config.publicPath)

def uploadBytes (now : Nat) (objectName : String) (content : Bytes) (t : Disk) :
    Except StorageError (List Char) × Disk :=
  match getPath s.root objectName with
  | .error e => (.error e, t)
  | .ok target =>
      match placeFile target ⟨content, now⟩ t with
      | (.error e, t') => (.error (.os e), t')
      | (.ok _, t') => (.ok (s.getObjectUrl objectName), t')

def downloadBytes (objectName : String) (t : Disk) : Except StorageError Bytes :=
  match getPath s.root objectName with
  | .error e => .error e
  | .ok target =>
      match read t target with
      | .error e => .error (.os e)
      | .ok x => .ok x.content

/-- The etag and the length, if the object is there. -/
def headObject (objectName : String) (t : Disk) : Except StorageError (Option (String × Nat)) :=
  match getPath s.root objectName with
  | .error e => .error e
  | .ok target =>
      match stat t target with
      | .ok (.file x) => .ok (some (etag x, x.content.length))
      | _ => .ok none

def deleteObject (objectName : String) (t : Disk) : Except StorageError Unit × Disk :=
  match getPath s.root objectName with
  | .error e => (.error e, t)
  | .ok target =>
      match stat t target with
      | .error _ => (.ok (), t)
      | .ok _ =>
          match unlink t target with
          | .error e => (.error (.os e), t)
          | .ok t' => (.ok (), t')

end LocalStorage

/-! ### Requests -/

inductive Request where
  | upload (objectName : String) (content : Bytes)
  | download (objectName : String)
  | head (objectName : String)
  | delete (objectName : String)

inductive Answer where
  | url (url : List Char)
  | content (content : Bytes)
  | found (head : Option (String × Nat))
  | deleted

def serve (s : LocalStorage) (now : Nat) (r : Request) (t : Disk) :
    Except StorageError Answer × Disk :=
  match r with
  | .upload objectName content =>
      ((s.uploadBytes now objectName content t).1.map .url,
        (s.uploadBytes now objectName content t).2)
  | .download objectName => ((s.downloadBytes objectName t).map .content, t)
  | .head objectName => ((s.headObject objectName t).map .found, t)
  | .delete objectName =>
      ((s.deleteObject objectName t).1.map fun _ => .deleted, (s.deleteObject objectName t).2)

/-- The answers to requests with their times, and the state they leave. -/
def answers {σ α : Type} (serve : Nat → Request → σ → α × σ) :
    List (Nat × Request) → σ → List α × σ
  | [], x => ([], x)
  | (now, r) :: requests, x =>
      ((serve now r x).1 :: (answers serve requests (serve now r x).2).1,
        (answers serve requests (serve now r x).2).2)

theorem answers_append {σ α : Type} (serve : Nat → Request → σ → α × σ)
    (first second : List (Nat × Request)) (x : σ) :
    (answers serve (first ++ second) x).2 =
      (answers serve second (answers serve first x).2).2 := by
  induction first generalizing x with
  | nil => rfl
  | cons entry first ih => exact ih _

/-! ### An object store -/

/-- The objects by their keys, and the keys of all uploads. -/
structure Objects where
  stored : Path → Option Stored
  uploaded : List Path

namespace Objects

def empty : Objects := ⟨fun _ => none, []⟩

variable (o : Objects)

/-- The root, and whatever lies above a key that has been uploaded. -/
def folder (key : Path) : Prop := key = [] ∨ ∃ k ∈ o.uploaded, key <+: k ∧ key ≠ k

instance (key : Path) : Decidable (o.folder key) := inferInstanceAs (Decidable (_ ∨ _))

/-- An object above a key. -/
def obstacle (key : Path) : Option Path :=
  key.dropLast.inits.find? fun q => (o.stored q).isSome

def upload (key : Path) (x : Stored) : Except FileTree.Error Objects :=
  match o.obstacle key with
  | some q => .error (if q = key.dropLast then .fileExists else .notDirectory)
  | none =>
      if o.folder key then .error .isDirectory
      else .ok ⟨Function.update o.stored key (some x), key :: o.uploaded⟩

def download (key : Path) : Except FileTree.Error Bytes :=
  match o.stored key with
  | some x => .ok x.content
  | none =>
      if o.folder key then .error .isDirectory
      else if (o.obstacle key).isSome then .error .notDirectory
      else .error .notFound

def head (key : Path) : Option (String × Nat) :=
  (o.stored key).map fun x => (etag x, x.content.length)

def delete (key : Path) : Except FileTree.Error Objects :=
  match o.stored key with
  | some _ => .ok { o with stored := Function.update o.stored key none }
  | none => if o.folder key then .error .isDirectory else .ok o

end Objects

/-- The key of the object that a name leads to, if it does not lead out of the root. -/
def keyOf (root : Path) (objectName : String) : Option Path :=
  if root <+: resolveName root objectName then
    some ((resolveName root objectName).drop root.length)
  else none

def refused : StorageError := .value "Invalid object name"

/-- The requests to an object store. -/
def serveObjects (s : LocalStorage) (now : Nat) (r : Request) (o : Objects) :
    Except StorageError Answer × Objects :=
  match r with
  | .upload objectName content =>
      match keyOf s.root objectName with
      | none => (.error refused, o)
      | some key =>
          match o.upload key ⟨content, now⟩ with
          | .error e => (.error (.os e), o)
          | .ok o' => (.ok (.url (s.getObjectUrl objectName)), o')
  | .download objectName =>
      match keyOf s.root objectName with
      | none => (.error refused, o)
      | some key =>
          match o.download key with
          | .error e => (.error (.os e), o)
          | .ok content => (.ok (.content content), o)
  | .head objectName =>
      match keyOf s.root objectName with
      | none => (.error refused, o)
      | some key => (.ok (.found (o.head key)), o)
  | .delete objectName =>
      match keyOf s.root objectName with
      | none => (.error refused, o)
      | some key =>
          match o.delete key with
          | .error e => (.error (.os e), o)
          | .ok o' => (.ok .deleted, o')

/-! ### Names -/

theorem mem_parents {root target : Path} :
    root ∈ parents target ↔ root <+: target ∧ root ≠ target := by
  cases target with
  | nil =>
      rw [parents]
      refine iff_of_false (List.not_mem_nil) fun both => ?_
      exact both.2 (List.prefix_nil.mp both.1)
  | cons part path =>
      rw [parents, List.mem_inits]
      have whole : (part :: path).dropLast ++ [(part :: path).getLast (by simp)] = part :: path :=
        List.dropLast_append_getLast _
      constructor
      · intro below
        have longer := below.length_le
        rw [List.length_dropLast, List.length_cons] at longer
        refine ⟨below.trans (List.dropLast_prefix _), fun same => ?_⟩
        rw [same, List.length_cons] at longer
        omega
      · rintro ⟨below, other⟩
        rw [← whole] at below
        exact (List.prefix_concat_iff.mp below).resolve_left fun same => other (same.trans whole)

/-- A name is refused exactly if it leads out of the root. -/
theorem getPath_eq (root : Path) (objectName : String) :
    getPath root objectName =
      match keyOf root objectName with
      | some key => .ok (root ++ key)
      | none => .error refused := by
  rw [getPath, keyOf]
  by_cases below : root <+: resolveName root objectName
  · have inside : ¬ (resolveName root objectName ≠ root ∧
        ¬ (parents (resolveName root objectName)).contains root) := by
      rintro ⟨other, outside⟩
      exact outside (List.contains_iff_mem.mpr (mem_parents.mpr ⟨below, Ne.symm other⟩))
    rw [if_neg inside, if_pos below]
    exact congrArg _ (List.prefix_iff_eq_append.mp below).symm
  · have outside : resolveName root objectName ≠ root ∧
        ¬ (parents (resolveName root objectName)).contains root := by
      refine ⟨fun same => below (by rw [same]), fun mem => ?_⟩
      exact below (mem_parents.mp (List.contains_iff_mem.mp mem)).1
    rw [if_pos outside, if_neg below]
    rfl

end AcojWorker.LocalObjects
