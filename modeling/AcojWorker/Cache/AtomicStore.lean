import AcojWorker.Cache.Paths
import AcojWorker.Cache.Replay
import AcojWorker.Effect.Solo

/-!
# Storing with a fault

A store replaces two files, one after the other, each from a temporary sibling. One of its calls
to the file system fails here and all others succeed; nobody else is at work. Nothing of what has
been done before the fault is undone, so that only the earliest faults leave the entry as it was.
-/

namespace AcojWorker.FileCache

open Python Effect

/-! ### Faults -/

/-- The call that fails. A write that fails leaves no temporary file, or one with anything in
it. -/
inductive Fault where
  | mkdir
  | writeData (left : Option File)
  | replaceData
  | writeMeta (left : Option File)
  | replaceMeta

namespace Fault

/-- Whether a call of a store of the key is the one that fails. -/
def Strikes (key : Key) : Fault → CacheOp → Prop
  | .mkdir, .mkdirParent _ => True
  | .writeData _, .writeTemp _ (.data _) => True
  | .replaceData, .replace _ path => path = dataPath key
  | .writeMeta _, .writeTemp _ (.json _) => True
  | .replaceMeta, .replace _ path => path = metaPath key
  | _, _ => False

/-- What the fault leaves of a temporary file that was to be written. -/
def Leaves (t : Nat) : Fault → CacheOp → World → World → Prop
  | .writeData left, .writeTemp temp _, w, w' => w' = w.setTemp temp (some (t, left))
  | .writeMeta left, .writeTemp temp _, w, w' => w' = w.setTemp temp (some (t, left))
  | _, _, _, _ => True

theorem spares_now (key : Key) (fault : Fault) : ¬ fault.Strikes key .now := by
  cases fault <;> exact id

theorem spares_tempSibling (key : Key) (fault : Fault) (path : Path) :
    ¬ fault.Strikes key (.tempSibling path) := by
  cases fault <;> exact id

theorem spares_acquire (key key' : Key) (fault : Fault) : ¬ fault.Strikes key (.acquire key') := by
  cases fault <;> exact id

theorem spares_release (key key' : Key) (fault : Fault) (outcome : Except Exc (Option Path)) :
    ¬ fault.Strikes key (.release key' outcome) := by
  cases fault <;> exact id

theorem strikes_mkdirParent {key : Key} {fault : Fault} {path : Path} :
    fault.Strikes key (.mkdirParent path) ↔ fault = .mkdir := by
  cases fault <;> simp [Strikes]

end Fault

/-- The disk on which one call fails. -/
def failing (key : Key) (fault : Fault) : Machine CacheCalls Exc World where
  exec t op w r w' := disk.exec t op w r w' ∧
    (fault.Strikes key op → (∃ e, r = .error e) ∧ fault.Leaves t op w w') ∧
      (¬ fault.Strikes key op → ∃ a, r = .ok a)
  drift := disk.drift

/-- What is in a temporary file, if there is one. -/
def World.tempFile (w : World) (temp : Nat) : Option File := (w.temps temp).bind Prod.snd

/-- The entry of the key is the old one or the new one, and no temporary file is left. -/
structure AllOrNothing (key : Key) (content : Bytes) (sha256 etag objectName : String)
    (τ : Trace CacheCalls Exc) (w w' : World) : Prop where
  entry : w'.files (dataPath key) = w.files (dataPath key) ∧
      w'.files (metaPath key) = w.files (metaPath key) ∨
    w'.files (dataPath key) = some (.data content) ∧ ∃ now : ℚ, ⟨.now, .ok now⟩ ∈ τ ∧
      w'.files (metaPath key) = some (.json (storedMeta content sha256 etag objectName now))
  temps : ∀ temp file, w'.tempFile temp = some file → w.tempFile temp = some file

/-- So a data file is never without its meta file. -/
theorem AllOrNothing.accounted {key : Key} {content : Bytes} {sha256 etag objectName : String}
    {τ : Trace CacheCalls Exc} {w w' : World}
    (whole : AllOrNothing key content sha256 etag objectName τ w w')
    (before : (w.files (dataPath key)).isSome → (w.files (metaPath key)).isSome)
    (there : (w'.files (dataPath key)).isSome) : (w'.files (metaPath key)).isSome := by
  obtain ⟨data, document⟩ | ⟨-, now, -, document⟩ := whole.entry
  · rw [document]
    exact before (data ▸ there)
  · rw [document]
    rfl

/-- The faults that do no harm: the directory is not made, or a temporary file is not even
opened; after the replacement of the data file, only if that or the meta file was as the store
would have it. -/
def HarmlessFault (key : Key) (content : Bytes) (sha256 etag objectName : String)
    (τ : Trace CacheCalls Exc) (w : World) : Fault → Prop
  | .mkdir => True
  | .writeData left => left = none
  | .replaceData => False
  | .writeMeta left => left = none ∧ (w.files (dataPath key) = some (.data content) ∨
      ∃ now : ℚ, ⟨.now, .ok now⟩ ∈ τ ∧
        w.files (metaPath key) = some (.json (storedMeta content sha256 etag objectName now)))
  | .replaceMeta => False

/-! ### Calls -/

/-- Files and temporary files are as before. -/
structure SameFiles (w w' : World) : Prop where
  files : w'.files = w.files
  temps : w'.tempFile = w.tempFile

section Calls

variable {key : Key} {fault : Fault} {t : Nat} {w w₁ w' : World} {τ : Trace CacheCalls Exc}

theorem SameFiles.refl : SameFiles w w := ⟨rfl, rfl⟩

theorem SameFiles.trans (first : SameFiles w w₁) (second : SameFiles w₁ w') : SameFiles w w' :=
  ⟨second.files.trans first.files, second.temps.trans first.temps⟩

theorem sameFiles_drift (run : Relation.ReflTransGen (failing key fault).drift w w') :
    SameFiles w w' := by
  induction run with
  | refl => exact .refl
  | tail _ h ih =>
      obtain ⟨clock, _, rfl⟩ := h
      exact ih.trans ⟨rfl, rfl⟩

/-- A call that is not the one that fails. -/
theorem performs_succeeds {α : Type} {op : CacheOp} {next : op.Answer → Caching α}
    {out : Except Exc α} (h : (call op >>= next).Performs (failing key fault) t w τ out w')
    (spared : ¬ fault.Strikes key op) :
    ∃ a w₁ w₂ w₃ τ₂, SameFiles w w₁ ∧ disk.exec t op w₁ (.ok a) w₂ ∧ SameFiles w₂ w₃ ∧
      (next a).Performs (failing key fault) t w₃ τ₂ out w' := by
  obtain ⟨a, τ₁, τ₂, w₃, first, rest, -⟩ := performs_step h fun _ e _ raised => by
    obtain ⟨-, _, _, -, ⟨-, -, succeeds⟩, -⟩ := performs_perform raised
    obtain ⟨_, impossible⟩ := succeeds spared
    exact nomatch impossible
  obtain ⟨-, w₁, w₂, before, ⟨exec, -⟩, after⟩ := performs_perform first
  exact ⟨a, w₁, w₂, w₃, τ₂, sameFiles_drift before, exec, sameFiles_drift after, rest⟩

/-- The call that fails is the last one. -/
theorem performs_fails {α : Type} {op : CacheOp} {next : op.Answer → Caching α}
    {out : Except Exc α} (h : (call op >>= next).Performs (failing key fault) t w τ out w')
    (struck : fault.Strikes key op) :
    ∃ e w₁ w₂, SameFiles w w₁ ∧ disk.exec t op w₁ (.error e) w₂ ∧ fault.Leaves t op w₁ w₂ ∧
      SameFiles w₂ w' ∧ out = .error e := by
  obtain ⟨e, raised, rfl⟩ | ⟨a, τ₁, τ₂, w₃, first, -, -⟩ := performs_bind h
  · obtain ⟨-, w₁, w₂, before, ⟨exec, fails, -⟩, after⟩ := performs_perform raised
    exact ⟨e, w₁, w₂, sameFiles_drift before, exec, (fails struck).2, sameFiles_drift after, rfl⟩
  · obtain ⟨-, w₁, w₂, -, ⟨-, fails, -⟩, -⟩ := performs_perform first
    obtain ⟨⟨_, impossible⟩, -⟩ := fails struck
    exact nomatch impossible

/-! ### What the calls do when they succeed -/

theorem exec_mkdirParent {path : Path} {a : Unit}
    (exec : disk.exec t (.mkdirParent path) w (.ok a) w') : SameFiles w w' := by
  obtain rfl | rfl := exec
  · exact .refl
  · exact ⟨rfl, rfl⟩

theorem tempFile_setTemp (w : World) (temp : Nat) (owner : Nat) (left : Option File) :
    (w.setTemp temp (some (owner, left))).tempFile = Function.update w.tempFile temp left := by
  funext other
  by_cases same : other = temp
  · subst same
    simp [World.tempFile, World.setTemp]
  · simp [World.tempFile, World.setTemp, same]

/-- The name of a temporary file is a new one. -/
theorem exec_tempSibling {path : Path} {temp : Nat}
    (exec : disk.exec t (.tempSibling path) w (.ok temp) w') :
    SameFiles w w' ∧ w.tempFile temp = none := by
  obtain ⟨_, unused, same, rfl⟩ := exec
  cases same
  have absent : w.tempFile temp = none := by
    rw [World.tempFile, unused]
    rfl
  refine ⟨⟨rfl, ?_⟩, absent⟩
  rw [tempFile_setTemp, ← absent, Function.update_eq_self]

theorem exec_writeTemp {temp : Nat} {file : File} {a : Unit}
    (exec : disk.exec t (.writeTemp temp file) w (.ok a) w') :
    w'.files = w.files ∧ w'.tempFile = Function.update w.tempFile temp (some file) := by
  obtain ⟨_, _, impossible, -⟩ | ⟨-, rfl⟩ := exec
  · exact nomatch impossible
  · exact ⟨rfl, tempFile_setTemp ..⟩

theorem exec_replace {temp : Nat} {path : Path} {file : File} {a : Unit}
    (written : w.tempFile temp = some file)
    (exec : disk.exec t (.replace temp path) w (.ok a) w') :
    w'.files = Function.update w.files path (some file) ∧
      w'.tempFile = Function.update w.tempFile temp none := by
  obtain ⟨_, impossible, -⟩ | ⟨owner, found, there, -, rfl⟩ := exec
  · exact nomatch impossible
  · rw [World.tempFile, there] at written
    obtain rfl : found = file := Option.some.inj written
    refine ⟨rfl, ?_⟩
    funext other
    by_cases same : other = temp
    · subst same
      simp [World.tempFile, World.setTemp, World.put]
    · simp [World.tempFile, World.setTemp, World.put, same]

end Calls

/-! ### A store with a fault -/

namespace Fault

/-- The data file has been replaced when the fault occurs. -/
def published : Fault → Bool
  | .writeMeta _ => true
  | .replaceMeta => true
  | _ => false

/-- What is left in the temporary file that was in use. -/
def left (content : Bytes) (document : Value) : Fault → Option File
  | .mkdir => none
  | .writeData left => left
  | .replaceData => some (.data content)
  | .writeMeta left => left
  | .replaceMeta => some (.json document)

end Fault

/-- The files after a fault: at most the data file is replaced, at most one temporary file is
left. -/
structure AfterFault (key : Key) (content : Bytes) (fault : Fault) (w w' : World) : Prop where
  files : w'.files = if fault.published then
    Function.update w.files (dataPath key) (some (.data content)) else w.files
  temps : fault = .mkdir ∧ w'.tempFile = w.tempFile ∨
    ∃ (document : Value) (temp : Nat), w.tempFile temp = none ∧
      w'.tempFile = Function.update w.tempFile temp (fault.left content document)

section Store

variable {settings : Settings} {key : Key} {content : Bytes} {sha256 etag objectName : String}
  {fault : Fault} {t : Nat} {w w' : World} {τ : Trace CacheCalls Exc}

variable {document : Value} {temp : Nat} {w₁ w₂ : World}

theorem AfterFault.later (after : AfterFault key content fault w w₁) (same : SameFiles w₁ w') :
    AfterFault key content fault w w' where
  files := same.files.trans after.files
  temps := same.temps ▸ after.temps

theorem AfterFault.earlier (same : SameFiles w w₁) (after : AfterFault key content fault w₁ w') :
    AfterFault key content fault w w' where
  files := same.files ▸ after.files
  temps := same.temps ▸ after.temps

/-- What a temporary file holds that could not be written. -/
theorem tempFile_leaves {left : Option File} (before : SameFiles w w₁)
    (leaves : w₂ = w₁.setTemp temp (some (t, left))) (after : SameFiles w₂ w') :
    w'.files = w.files ∧ w'.tempFile = Function.update w.tempFile temp left := by
  subst leaves
  refine ⟨after.files.trans before.files, ?_⟩
  rw [after.temps, tempFile_setTemp, before.temps]

/-- A file is written and replaces another, unless the fault is one of the two calls. -/
theorem performs_publish {α : Type} {temp : Nat} {file : File} {path : Path}
    {next : Unit → Caching α} {out : Except Exc α}
    (h : (call (.writeTemp temp file) >>= fun _ => call (.replace temp path) >>= next).Performs
      (failing key fault) t w τ out w') (unused : w.tempFile temp = none) :
    (fault.Strikes key (.writeTemp temp file) ∧ (∃ e, out = .error e) ∧ ∃ w₁ w₂, SameFiles w w₁ ∧
        fault.Leaves t (.writeTemp temp file) w₁ w₂ ∧ SameFiles w₂ w') ∨
      (fault.Strikes key (.replace temp path) ∧ (∃ e, out = .error e) ∧ w'.files = w.files ∧
        w'.tempFile = Function.update w.tempFile temp (some file)) ∨
      (¬ fault.Strikes key (.writeTemp temp file) ∧ ¬ fault.Strikes key (.replace temp path) ∧
        ∃ w₁ τ₁, w₁.files = Function.update w.files path (some file) ∧ w₁.tempFile = w.tempFile ∧
          (next ()).Performs (failing key fault) t w₁ τ₁ out w') := by
  by_cases struck : fault.Strikes key (.writeTemp temp file)
  · obtain ⟨e, w₁, w₂, before, -, leaves, after, rfl⟩ := performs_fails h struck
    exact .inl ⟨struck, ⟨e, rfl⟩, w₁, w₂, before, leaves, after⟩
  obtain ⟨_, w₁, w₂, w₃, _, before, written, after, h⟩ := performs_succeeds h struck
  obtain ⟨files, temps⟩ := exec_writeTemp written
  have kept : w₃.files = w.files := after.files.trans (files.trans before.files)
  have holds : w₃.tempFile = Function.update w.tempFile temp (some file) := by
    rw [after.temps, temps, before.temps]
  right
  by_cases struck' : fault.Strikes key (.replace temp path)
  · obtain ⟨e, w₄, w₅, before, exec, -, after, rfl⟩ := performs_fails h struck'
    have same : w₅ = w₄ := by
      obtain ⟨_, -, same⟩ | ⟨_, _, -, impossible, -⟩ := exec
      · exact same
      · exact nomatch impossible
    have unchanged := before.trans (same ▸ after)
    exact .inl ⟨struck', ⟨e, rfl⟩, unchanged.files.trans kept, unchanged.temps.trans holds⟩
  · obtain ⟨_, w₄, w₅, w₆, τ₁, before, exec, after, h⟩ := performs_succeeds h struck'
    have there : w₄.tempFile temp = some file := by
      rw [before.temps, holds, Function.update_self]
    obtain ⟨replaced, emptied⟩ := exec_replace there exec
    refine .inr ⟨struck, struck', w₆, τ₁, ?_, ?_, h⟩
    · rw [after.files, replaced, before.files, kept]
    · rw [after.temps, emptied, before.temps, holds, Function.update_idem, ← unused,
        Function.update_eq_self]

theorem performs_name {α : Type} {path : Path} {next : Nat → Caching α} {out : Except Exc α}
    (h : (call (.tempSibling path) >>= next).Performs (failing key fault) t w τ out w') :
    ∃ temp w₁ τ₁, SameFiles w w₁ ∧ w.tempFile temp = none ∧
      (next temp).Performs (failing key fault) t w₁ τ₁ out w' := by
  obtain ⟨temp, w₁, w₂, w₃, τ₁, before, exec, after, h⟩ := performs_succeeds h
    (fault.spares_tempSibling key path)
  obtain ⟨named, unused⟩ := exec_tempSibling exec
  refine ⟨temp, w₃, τ₁, (before.trans named).trans after, ?_, h⟩
  rw [← before.temps]
  exact unused

/-- The meta file, once the data file is replaced. -/
theorem performs_publishMeta {α : Type} {next : Unit → Caching α} {out : Except Exc α}
    (h : (call (.writeTemp temp (.json document)) >>= fun _ =>
      call (.replace temp (metaPath key)) >>= next).Performs (failing key fault) t w₁ τ out w')
    (files : w₁.files = Function.update w.files (dataPath key) (some (.data content)))
    (temps : w₁.tempFile = w.tempFile) (unused : w.tempFile temp = none)
    (remains : fault ≠ .mkdir)
    (remains' : ∀ temp content, ¬ fault.Strikes key (.writeTemp temp (.data content)))
    (remains'' : ∀ temp, ¬ fault.Strikes key (.replace temp (dataPath key))) :
    (∃ e, out = .error e) ∧ AfterFault key content fault w w' := by
  obtain ⟨struck, failed, w₂, w₃, before, leaves, after⟩ | ⟨struck, failed, files', temps'⟩ |
    ⟨spared, spared', -⟩ := performs_publish h (temps ▸ unused)
  · refine ⟨failed, ?_⟩
    cases fault with
    | writeMeta left =>
        obtain ⟨files', temps'⟩ := tempFile_leaves before leaves after
        exact ⟨files'.trans files, .inr ⟨document, temp, unused, temps ▸ temps'⟩⟩
    | _ => exact struck.elim
  · refine ⟨failed, ?_⟩
    cases fault with
    | replaceMeta => exact ⟨files'.trans files, .inr ⟨document, temp, unused, temps ▸ temps'⟩⟩
    | replaceData => exact absurd struck (dataPath_ne_metaPath key).symm
    | _ => exact struck.elim
  · cases fault with
    | mkdir => exact absurd rfl remains
    | writeData => exact absurd trivial (remains' 0 [])
    | replaceData => exact absurd rfl (remains'' 0)
    | writeMeta => exact absurd trivial spared
    | replaceMeta => exact absurd rfl spared'

/-- The data file, and then the meta file. -/
theorem performs_publishBoth {temp' : Nat} {next : Unit → Caching ℚ} {out : Except Exc ℚ}
    (h : (call (.writeTemp temp (.data content)) >>= fun _ =>
      call (.replace temp (dataPath key)) >>= fun _ =>
      call (.writeTemp temp' (.json document)) >>= fun _ =>
      call (.replace temp' (metaPath key)) >>= next).Performs (failing key fault) t w τ out w')
    (unused : w.tempFile temp = none) (unused' : w.tempFile temp' = none)
    (remains : fault ≠ .mkdir) :
    (∃ e, out = .error e) ∧ AfterFault key content fault w w' := by
  obtain ⟨struck, failed, w₂, w₃, before, leaves, after⟩ | ⟨struck, failed, files, temps⟩ |
    ⟨spared, spared', w₂, _, files, temps, h⟩ := performs_publish h unused
  · refine ⟨failed, ?_⟩
    cases fault with
    | writeData left =>
        obtain ⟨files, temps⟩ := tempFile_leaves before leaves after
        exact ⟨files, .inr ⟨document, temp, unused, temps⟩⟩
    | _ => exact struck.elim
  · refine ⟨failed, ?_⟩
    cases fault with
    | replaceData => exact ⟨files, .inr ⟨document, temp, unused, temps⟩⟩
    | replaceMeta => exact absurd struck (dataPath_ne_metaPath key)
    | _ => exact struck.elim
  · apply performs_publishMeta h files temps unused' remains
    · cases fault <;> exact fun _ _ => spared
    · cases fault <;> exact fun _ => spared'

/-- The fault of a call of the store ends the locked part. -/
theorem performs_storeFiles {out : Except Exc ℚ}
    (h : (storeFiles key content sha256 etag objectName).Performs (failing key fault) t w τ out
      w') :
    (∃ e, out = .error e) ∧ AfterFault key content fault w w' := by
  rw [storeFiles] at h
  by_cases first : fault = .mkdir
  · subst first
    obtain ⟨e, w₁, w₂, before, made, -, after, rfl⟩ := performs_fails h trivial
    refine ⟨⟨e, rfl⟩, ?_⟩
    have same : SameFiles w w' := by
      obtain rfl | rfl := made
      · exact before.trans after
      · have dirs : SameFiles w₁ (w₁.makeDirs (dataPath key)) := ⟨rfl, rfl⟩
        exact before.trans (dirs.trans after)
    exact ⟨same.files, .inl ⟨rfl, same.temps⟩⟩
  · obtain ⟨_, w₁, w₂, w₃, _, before, exec, after, h⟩ := performs_succeeds h
      (mt Fault.strikes_mkdirParent.mp first)
    have made := (before.trans (exec_mkdirParent exec)).trans after
    obtain ⟨tmpData, w₄, _, named, unusedData, h⟩ := performs_name h
    obtain ⟨tmpMeta, w₅, _, named', unusedMeta, h⟩ := performs_name h
    obtain ⟨now, w₁, w₂, w₆, _, before, ⟨-, rfl⟩, after, h⟩ := performs_succeeds h
      (fault.spares_now key)
    have clocked := before.trans after
    have begun := made.trans (named.trans (named'.trans clocked))
    have unused : w₆.tempFile tmpData = none := by
      rw [clocked.temps, named'.temps, named.temps]
      exact unusedData
    have unused' : w₆.tempFile tmpMeta = none := by
      rw [clocked.temps, named'.temps]
      exact unusedMeta
    obtain ⟨failed, after⟩ := performs_publishBoth h unused unused' first
    exact ⟨failed, after.earlier begun⟩

theorem performs_store {out : Except Exc Unit}
    (h : (store settings key content sha256 etag objectName).Performs (failing key fault) t w τ out
      w') : AfterFault key content fault w w' := by
  have locked : ∀ {τ : Trace CacheCalls Exc} {out w'}, (withKeyLock key (fun _ => none)
      (storeFiles key content sha256 etag objectName)).Performs (failing key fault) t w τ out w' →
      (∃ e, out = .error e) ∧ AfterFault key content fault w w' := by
    intro τ out w' h
    rw [withKeyLock] at h
    obtain ⟨_, w₁, w₂, w₃, _, before, ⟨-, -, rfl⟩, after, h⟩ := performs_succeeds h
      (fault.spares_acquire key key)
    have taken : SameFiles w₁ (w₁.lock t key) := ⟨rfl, rfl⟩
    have begun := before.trans (taken.trans after)
    rw [leaving] at h
    obtain ⟨outcome, _, _, w₄, first, h, -⟩ := performs_step h fun _ _ _ raised => by
      obtain ⟨_, impossible, -⟩ := performs_attempt raised
      exact nomatch impossible
    obtain ⟨_, ⟨⟩, inner⟩ := performs_attempt first
    obtain ⟨⟨e, rfl⟩, faulty⟩ := performs_storeFiles inner
    obtain ⟨_, w₁, w₂, w₅, _, before, exec, after, h⟩ := performs_succeeds h
      (fault.spares_release key key _)
    have given : SameFiles w₁ w₂ := by
      obtain ⟨-, -, rfl⟩ | ⟨-, impossible, -⟩ := exec
      · exact ⟨rfl, rfl⟩
      · exact nomatch impossible
    obtain ⟨-, rfl, run⟩ := performs_lift h
    have ended := before.trans (given.trans (after.trans (sameFiles_drift run)))
    exact ⟨⟨e, rfl⟩, (faulty.later ended).earlier begun⟩
  rw [store] at h
  obtain ⟨e, raised, -⟩ | ⟨now, _, _, w₁, done, -, -⟩ := performs_bind h
  · exact (locked raised).2
  · obtain ⟨e, impossible⟩ := (locked done).1
    exact nomatch impossible

/-- No temporary file is left exactly if the fault leaves nothing in the one that was in use. -/
theorem tempFile_left {left : Option File} (unused : w.tempFile temp = none)
    (temps : w'.tempFile = Function.update w.tempFile temp left) :
    (∀ other file, w'.tempFile other = some file → w.tempFile other = some file) ↔ left = none := by
  rw [temps]
  constructor
  · intro none
    cases left with
    | none => rfl
    | some file =>
        have there := none temp file (Function.update_self ..)
        exact nomatch unused.symm.trans there
  · rintro rfl
    rw [← unused, Function.update_eq_self]
    exact fun _ _ => id

theorem whole_of_files (files : w'.files = w.files)
    (temps : ∀ temp file, w'.tempFile temp = some file → w.tempFile temp = some file) :
    AllOrNothing key content sha256 etag objectName τ w w' :=
  ⟨.inl ⟨congrFun files _, congrFun files _⟩, temps⟩

/-- With the data file alone replaced, the entry is the old one or the new one only if one of the
two files did not have to change. -/
theorem entry_published
    (files : w'.files = Function.update w.files (dataPath key) (some (.data content))) :
    (w'.files (dataPath key) = w.files (dataPath key) ∧
        w'.files (metaPath key) = w.files (metaPath key) ∨
      w'.files (dataPath key) = some (.data content) ∧ ∃ now : ℚ, ⟨.now, .ok now⟩ ∈ τ ∧
        w'.files (metaPath key) = some (.json (storedMeta content sha256 etag objectName now))) ↔
      w.files (dataPath key) = some (.data content) ∨ ∃ now : ℚ, ⟨.now, .ok now⟩ ∈ τ ∧
        w.files (metaPath key) = some (.json (storedMeta content sha256 etag objectName now)) := by
  have data : w'.files (dataPath key) = some (.data content) := by
    rw [files, Function.update_self]
  have other : w'.files (metaPath key) = w.files (metaPath key) := by
    rw [files, Function.update_of_ne (dataPath_ne_metaPath key).symm]
  rw [data, other]
  constructor
  · rintro (⟨same, -⟩ | ⟨-, same⟩)
    · exact .inl same.symm
    · exact .inr same
  · rintro (same | same)
    · exact .inl ⟨same.symm, rfl⟩
    · exact .inr ⟨rfl, same⟩

/-- A fault leaves the entry whole and no temporary file behind exactly if it is harmless. -/
theorem allOrNothing_iff {out : Except Exc Unit}
    (h : (store settings key content sha256 etag objectName).Performs (failing key fault) t w τ out
      w') :
    AllOrNothing key content sha256 etag objectName τ w w' ↔
      HarmlessFault key content sha256 etag objectName τ w fault := by
  obtain ⟨files, ⟨rfl, temps⟩ | ⟨document, temp, unused, temps⟩⟩ := performs_store h
  · exact ⟨fun _ => trivial, fun _ => whole_of_files files fun _ _ there => temps ▸ there⟩
  have left := tempFile_left unused temps
  cases fault with
  | mkdir => exact ⟨fun _ => trivial, fun _ => whole_of_files files (left.mpr rfl)⟩
  | writeData rest =>
      constructor
      · exact fun whole => left.mp whole.temps
      · exact fun none => whole_of_files files (left.mpr none)
  | replaceData =>
      exact ⟨fun whole => absurd (left.mp whole.temps) (Option.some_ne_none _), False.elim⟩
  | writeMeta rest =>
      have replaced : w'.files = Function.update w.files (dataPath key) (some (.data content)) :=
        files
      constructor
      · exact fun whole => ⟨left.mp whole.temps, (entry_published replaced).mp whole.entry⟩
      · exact fun harmless => ⟨(entry_published replaced).mpr harmless.2, left.mpr harmless.1⟩
  | replaceMeta =>
      exact ⟨fun whole => absurd (left.mp whole.temps) (Option.some_ne_none _), False.elim⟩

end Store

/-! ### A meta file that cannot be written -/

/-- No temporary meta file can be opened. -/
def withoutMeta (t : Nat) : Script CacheCalls Exc World
  | .writeTemp temp (.json _), w =>
      some (.error ⟨.osError, "no space left on device"⟩, w.setTemp temp (some (t, none)))
  | .loadJson _, _ => none
  | op, w => answer ⟨[], fun _ => [], ""⟩ t op w

theorem answer_ok {around : Surroundings} {t : Nat} {op : CacheOp} {w w' : World}
    {r : Except Exc op.Answer} (h : answer around t op w = some (r, w'))
    (other : ∀ path, op ≠ .loadJson path) : ∃ a, r = .ok a := by
  cases op with
  | loadJson path => exact absurd rfl (other path)
  | acquire | tryAcquire | release | replace =>
      rw [answer] at h
      split at h <;> cases h <;> exact ⟨_, rfl⟩
  | tempSibling =>
      obtain ⟨temp, -, hr⟩ := Option.map_eq_some_iff.mp h
      cases hr
      exact ⟨_, rfl⟩
  | downloadDirect => cases h
  | _ =>
      cases h
      exact ⟨_, rfl⟩

theorem withoutMeta_follows {key : Key} {t : Nat} (op : CacheOp) (w : World)
    (r : Except Exc op.Answer) (w' : World) (h : withoutMeta t op w = some (r, w')) :
    (failing key (.writeMeta none)).exec t op w r w' := by
  have spared (other : ¬ (Fault.writeMeta none).Strikes key op)
      (unread : ∀ path, op ≠ .loadJson path) (h : answer ⟨[], fun _ => [], ""⟩ t op w = some (r, w')) :
      (failing key (.writeMeta none)).exec t op w r w' :=
    ⟨exec_of_answer h, fun struck => absurd struck other, fun _ => answer_ok h unread⟩
  cases op with
  | writeTemp temp file =>
      cases file with
      | json document =>
          cases h
          exact ⟨.inl ⟨_, none, rfl, rfl⟩, fun _ => ⟨⟨_, rfl⟩, rfl⟩, fun other =>
            absurd trivial other⟩
      | data content => exact spared id (fun _ => nofun) h
  | loadJson => exact nomatch h
  | _ => exact spared id (fun _ => nofun) h

/-- A first store of an object whose meta file cannot be written. -/
def orphaning : Caching Unit := store ⟨true, 100, 60, fun _ => ""⟩ "name:a" [1] "" "" "a"

theorem orphaning_performs : ∃ τ out w', orphaning.Performs (failing "name:a" (.writeMeta none)) 0
    (World.start 0) τ out w' := by
  obtain ⟨⟨out, w'⟩, ends⟩ : ∃ end_,
      orphaning.outcome (withoutMeta 0) (World.start 0) = some end_ :=
    Option.isSome_iff_exists.mp (by decide +kernel)
  exact ⟨_, out, w', performs_transcript (I := fun _ => True)
    (fun op w r w' _ answered => ⟨withoutMeta_follows op w r w' answered, trivial⟩) trivial ends⟩

/-- The data file is there and the meta file is not. -/
theorem store_orphans : ∃ τ out w', orphaning.Performs (failing "name:a" (.writeMeta none)) 0
      (World.start 0) τ out w' ∧
    (w'.files (dataPath "name:a")).isSome ∧ w'.files (metaPath "name:a") = none ∧
      ¬ AllOrNothing "name:a" [1] "" "" "a" τ (World.start 0) w' := by
  obtain ⟨τ, out, w', performs⟩ := orphaning_performs
  have files : w'.files = Function.update (World.start 0).files (dataPath "name:a")
      (some (.data [1])) := (performs_store performs).files
  have data : w'.files (dataPath "name:a") = some (.data [1]) := by
    rw [files, Function.update_self]
  have lacking : w'.files (metaPath "name:a") = none := by
    rw [files, Function.update_of_ne (dataPath_ne_metaPath "name:a").symm]
    rfl
  refine ⟨τ, out, w', performs, data ▸ rfl, lacking, fun whole => ?_⟩
  obtain ⟨same, -⟩ | ⟨-, _, -, there⟩ := whole.entry
  · exact nomatch data.symm.trans same
  · exact nomatch lacking.symm.trans there

theorem orphaning_allOrNothing : ∃ τ w', AllOrNothing "name:a" [1] "" "" "a" τ (World.start 0) w' ↔
    HarmlessFault "name:a" [1] "" "" "a" τ (World.start 0) (.writeMeta none) := by
  obtain ⟨τ, out, w', performs⟩ := orphaning_performs
  exact ⟨τ, w', allOrNothing_iff performs⟩

end AcojWorker.FileCache
