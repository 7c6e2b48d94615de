import AcojWorker.Effect.Interleaving
import AcojWorker.Judge.Checker

/-!
# The files and locks of the cache

Every cache key has a data file and a meta file below the root of the cache, and a lock that
a thread may take again while it holds it. Files appear by an atomic replacement only, from
a temporary sibling that no other thread knows.

The remote storage is not part of the state: whatever it holds and however it changes, a
question to it may be answered in any way.
-/

namespace AcojWorker.FileCache

open Python Effect

/-! ### Keys and paths -/

abbrev Key : Type := String

/-- The parts of a path below the root of the cache. -/
abbrev Path : Type := List String

def cacheKey (sha256 objectName : String) : Key :=
  if sha256 ≠ "" then "sha256:" ++ sha256 else "name:" ++ objectName

def splitSlashes : List Char → List (List Char)
  | [] => [[]]
  | c :: cs =>
      if c = '/' then [] :: splitSlashes cs
      else match splitSlashes cs with
        | [] => [[c]]
        | part :: parts => (c :: part) :: parts

/-- A relative path, as `pathlib` takes it apart: empty parts and single dots do not count. -/
def parts (text : String) : Path :=
  ((splitSlashes text.toList).filter fun part => part ≠ [] ∧ part ≠ ['.']).map String.ofList

/-- `key[:2]`. -/
def keyPrefix (key : Key) : String := String.ofList (key.toList.take 2)

def dataPath (key : Key) : Path := parts (keyPrefix key) ++ parts key

def metaPath (key : Key) : Path := parts (keyPrefix key) ++ parts (key ++ ".meta.json")

def metaSuffix : String := ".meta.json"

/-- Whether `rglob("*.meta.json")` lists a path. -/
def isMetaFile (path : Path) : Bool :=
  match path.getLast? with
  | some name => metaSuffix.toList.isSuffixOf name.toList
  | none => false

/-- The key that the name of a meta file stands for. -/
def keyFromMetaPath (path : Path) : Option Key :=
  match path.getLast? with
  | some name =>
      if metaSuffix.toList.isSuffixOf name.toList then
        some (String.ofList (name.toList.take (name.length - metaSuffix.length)))
      else none
  | none => none

/-! ### Calls -/

/-- A file holds a downloaded content or a JSON document. -/
inductive File where
  | data (content : Bytes)
  | json (document : Value)

/-- What an eviction has read of a meta file. -/
structure Entry where
  key : Key
  size : Value
  lastAccessed : Value

/-- The calls of the cache. Leaving a locked block is told the outcome of the block, the time of
an eviction what it is about to judge and since when the store that led to it runs, and an
attempt to take a lock the time of the eviction it is made for: a run is observed there, the
calls do not depend on it. -/
inductive CacheOp where
  | acquire (key : Key)
  | tryAcquire (key : Key) (evicting : Option ℚ)
  | release (key : Key) (outcome : Except Exc (Option Path))
  | ensureRoot
  | rootExists
  | pathExists (path : Path)
  | loadJson (path : Path)
  | metaFiles
  | now
  | evictionTime (entries : List Entry) (since : Option ℚ)
  | getStorage
  | headObject (objectName : String)
  | download (objectName : String)
  | downloadDirect (objectName : String)
  | mkdirParent (path : Path)
  | tempSibling (path : Path)
  | writeTemp (temp : Nat) (file : File)
  | replace (temp : Nat) (path : Path)
  | unlinkTemp (temp : Nat)
  | unlink (path : Path)

/-- The type of each answer. -/
abbrev CacheOp.Answer : CacheOp → Type
  | tryAcquire .. | rootExists | pathExists _ => Bool
  | loadJson _ => Value
  | metaFiles => List Path
  | now | evictionTime .. => ℚ
  | headObject _ => Option String
  | download _ => Bytes
  | downloadDirect _ => Option Path
  | tempSibling _ => Nat
  | _ => Unit

def CacheCalls : Signature where
  Op := CacheOp
  Res := CacheOp.Answer

/-- A program of the cache. -/
abbrev Caching (α : Type) : Type := Program CacheCalls Exc α

def call (op : CacheOp) : Caching op.Answer := Program.perform (S := CacheCalls) op

/-! ### The state of a run -/

/-- Files, the files whose directories have been made, locks, temporary files with their
owners, and the clock; and what is remembered of the run: the content a thread has downloaded in its current block, when paths have been
returned, and what had been returned when a thread last took the time of an eviction. -/
structure World where
  files : Path → Option File
  dirs : List Path
  locks : Key → Option (Nat × Nat)
  temps : Nat → Option (Nat × Option File)
  clock : ℚ
  fetched : Nat → Option Bytes
  returned : List (Key × ℚ)
  before : Nat → List (Key × ℚ)

/-- How many times a thread has taken a lock, given its owner and count. -/
def timesHeld (t : Nat) : Option (Nat × Nat) → Nat
  | some (owner, n) => if owner = t then n else 0
  | none => 0

namespace World

/-- How many times a thread has taken the lock of a key. -/
def depth (w : World) (t : Nat) (key : Key) : Nat := timesHeld t (w.locks key)

/-- A lock that a thread can take: nobody holds it, or the thread itself does. -/
def free (w : World) (t : Nat) (key : Key) : Bool :=
  match w.locks key with
  | some (owner, _) => owner = t
  | none => true

def lock (w : World) (t : Nat) (key : Key) : World :=
  { w with locks := Function.update w.locks key (some (t, w.depth t key + 1)) }

/-- A block that returns a path is remembered with its time. -/
def release (w : World) (t : Nat) (key : Key) (outcome : Except Exc (Option Path)) : World where
  files := w.files
  dirs := w.dirs
  locks := Function.update w.locks key
    (if w.depth t key ≤ 1 then none else some (t, w.depth t key - 1))
  temps := w.temps
  clock := w.clock
  fetched := Function.update w.fetched t none
  returned := match outcome with
    | .ok (some _) => (key, w.clock) :: w.returned
    | _ => w.returned
  before := w.before

def setTemp (w : World) (temp : Nat) (x : Option (Nat × Option File)) : World :=
  { w with temps := Function.update w.temps temp x }

def put (w : World) (path : Path) (file : File) : World :=
  { w with files := Function.update w.files path (some file) }

def makeDirs (w : World) (path : Path) : World := { w with dirs := path :: w.dirs }

def IsDir (w : World) (path : Path) : Prop := ∃ file ∈ w.dirs, path <+: file ∧ path ≠ file

def remove (w : World) (path : Path) : World :=
  { w with files := Function.update w.files path none }

/-- An empty cache at some time. -/
def start (clock : ℚ) : World where
  files := fun _ => none
  dirs := []
  locks := fun _ => none
  temps := fun _ => none
  clock := clock
  fetched := fun _ => none
  returned := []
  before := fun _ => []

end World

/-- What reading a file as JSON may give: a document is read as it was written, a content may
be anything. -/
def Reads : Option File → Value → Prop
  | some (.json document), v => v = document
  | some (.data _), _ => True
  | none, _ => False

/-- The effect of a call by thread `t`. Calls to the file system may fail at any time. A walk
through the directories goes on while its files are read: it may miss files, and name files
that are gone or not there yet when it starts. -/
def exec (t : Nat) : (op : CacheOp) → World → Except Exc op.Answer → World → Prop
  | .acquire key, w, r, w' => w.free t key ∧ r = .ok () ∧ w' = w.lock t key
  | .tryAcquire key _, w, r, w' =>
      w.free t key ∧ r = .ok true ∧ w' = w.lock t key ∨ ¬ w.free t key ∧ r = .ok false ∧ w' = w
  | .release key outcome, w, r, w' =>
      0 < w.depth t key ∧ r = .ok () ∧ w' = w.release t key outcome ∨
        w.depth t key = 0 ∧ r = .error ⟨.runtimeError, "cannot release un-acquired lock"⟩ ∧ w' = w
  | .pathExists path, w, r, w' =>
      w' = w ∧ ∀ found, r = .ok found →
        ((w.files path).isSome → found = true) ∧
          (found = true → (w.files path).isSome ∨ w.IsDir path)
  | .loadJson path, w, r, w' => w' = w ∧ ∀ v, r = .ok v → Reads (w.files path) v
  | .metaFiles, w, r, w' =>
      w' = w ∧ ∀ paths : List Path, r = .ok paths → ∀ path ∈ paths, isMetaFile path
  | .now, w, r, w' => r = .ok w.clock ∧ w' = w
  | .evictionTime _ _, w, r, w' =>
      r = .ok w.clock ∧ w' = { w with before := Function.update w.before t w.returned }
  | .download _, w, r, w' =>
      (∃ e, r = .error e ∧ w' = w) ∨
        ∃ content, r = .ok content ∧
          w' = { w with fetched := Function.update w.fetched t (some content) }
  | .tempSibling _, w, r, w' =>
      ∃ temp, w.temps temp = none ∧ r = .ok temp ∧ w' = w.setTemp temp (some (t, none))
  | .writeTemp temp file, w, r, w' =>
      (∃ e left, r = .error e ∧ w' = w.setTemp temp (some (t, left))) ∨
        r = .ok () ∧ w' = w.setTemp temp (some (t, some file))
  | .replace temp path, w, r, w' =>
      (∃ e, r = .error e ∧ w' = w) ∨
        ∃ owner file, w.temps temp = some (owner, some file) ∧ r = .ok () ∧
          w' = (w.setTemp temp none).put path file
  | .unlinkTemp temp, w, r, w' =>
      (∃ e, r = .error e ∧ w' = w) ∨ r = .ok () ∧ w' = w.setTemp temp none
  | .unlink path, w, r, w' => (∃ e, r = .error e ∧ w' = w) ∨ r = .ok () ∧ w' = w.remove path
  | .ensureRoot, w, _, w' => w' = w
  | .rootExists, w, _, w' => w' = w
  | .getStorage, w, _, w' => w' = w
  | .headObject _, w, _, w' => w' = w
  | .downloadDirect _, w, _, w' => w' = w
  | .mkdirParent path, w, _, w' => w' = w ∨ w' = w.makeDirs path

/-- The cache on its disk; between calls time passes. -/
def disk : Machine CacheCalls Exc World where
  exec := exec
  drift w w' := ∃ clock, w.clock ≤ clock ∧ w' = { w with clock := clock }

end AcojWorker.FileCache
