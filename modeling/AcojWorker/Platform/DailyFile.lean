import AcojWorker.Python.Numerals
import AcojWorker.Python.Utf8
import Mathlib.Data.List.AList
import Mathlib.Data.List.Induction
import Mathlib.Data.List.Perm.Subperm

/-!
# Daily log files

The handler writes every record to the file of its day. A file that has reached its size is
renamed to the first free number, and a new one is begun.

The handler is alone with its files: their names carry the number of the process, and the
logging lock lets one record in at a time. What the system refuses is chosen from outside:
opens or renaming a file, or tells the position in it.
-/

namespace AcojWorker

namespace DailyFileHandler

open Python

inductive Node where
  | dir
  | file (content : List UInt8)
deriving DecidableEq, Repr

abbrev Disk : Type := AList fun _ : String => Node

def Disk.content (disk : Disk) (path : String) : List UInt8 :=
  match disk.lookup path with
  | some (.file content) => content
  | _ => []

structure Config where
  logDir : String
  maxBytes : Nat
  pid : Nat
deriving DecidableEq, Repr

/-- The date of `datetime.now()`. -/
structure Day where
  year : Nat
  month : Nat
  day : Nat
deriving DecidableEq, Repr

/-- `os.path.join` -/
def join (a b : String) : String :=
  if b.startsWith "/" then b
  else if a = "" ∨ a.endsWith "/" then a ++ b
  else a ++ "/" ++ b

/-- `{n:02d}` -/
def twoDigits (n : Nat) : String := if n < 10 then "0" ++ toString n else toString n

def dailyPath (config : Config) (now : Day) : String :=
  join (join (join config.logDir (toString now.year)) (twoDigits now.month))
    (twoDigits now.day ++ "-" ++ toString config.pid ++ ".log")

/-- `{path}.{counter}` -/
def rotated (path : String) (counter : Nat) : String := path ++ "." ++ toString counter

/-- The disk, and the handler with the path of the file it has open. -/
structure State where
  disk : Disk
  currentPath : Option String
  file : Option String

/-- What the system refuses while one record is emitted. -/
structure Refusals where
  opens : Bool
  tells : Bool
  renames : Bool
  reopens : Bool
deriving DecidableEq, Repr

/-- A record, the day it comes on, and its formatted text, which is missing where formatting or
encoding it fails. -/
structure Entry where
  now : Day
  message : Option String
  refused : Refusals
deriving DecidableEq, Repr

inductive Outcome where
  | written
  | handled
  | dropped
  | raised
deriving DecidableEq, Repr

/-- `open(path, "a")` -/
def openFile (path : String) (refused : Bool) (s : State) : Except State State :=
  if refused then .error s
  else
    match s.disk.lookup path with
    | some .dir => .error s
    | some (.file _) => .ok { s with file := some path }
    | none => .ok { s with disk := s.disk.insert path (.file []), file := some path }

def checkRollover (config : Config) (refused : Bool) (s : State) : Bool :=
  match s.file with
  | none => false
  | some path => !refused && decide (config.maxBytes ≤ (s.disk.content path).length)

/-- The loop over the numbers: the first one from `counter` on that is free. -/
def freeCounter (disk : Disk) (path : String) (counter : Nat) : Nat → Nat
  | 0 => counter
  | fuel + 1 =>
      if rotated path counter ∈ disk then freeCounter disk path (counter + 1) fuel else counter

def rotate (path : String) (refused : Bool) (s : State) : State :=
  let counter := freeCounter s.disk path 1 s.disk.keys.length
  if refused then s
  else
    match s.disk.lookup path with
    | none => s
    | some node => { s with disk := (s.disk.erase path).insert (rotated path counter) node }

def close (s : State) : State := { s with file := none }

/-- The first part of `emit`: another day, another file. -/
def change (path : String) (refused : Refusals) (s : State) : Except State State :=
  if s.currentPath = some path then .ok s
  else openFile path refused.opens { close s with currentPath := some path }

/-- The second part: a file that is large enough makes way for a new one. -/
def roll (config : Config) (path : String) (refused : Refusals) (s : State) : Except State State :=
  if checkRollover config refused.tells s then
    openFile path refused.reopens (rotate path refused.renames (close s))
  else .ok s

/-- What comes before the record is formatted; the error is the exception of `open`. -/
def prepare (config : Config) (path : String) (refused : Refusals) (s : State) :
    Except State State := do
  roll config path refused (← change path refused s)

/-- The bytes of a record. -/
def line (message : String) : List UInt8 := encodeUtf8 (message ++ "\n").toList

def write (path message : String) (s : State) : State :=
  { s with disk := s.disk.insert path (.file (s.disk.content path ++ line message)) }

def emit (config : Config) (entry : Entry) (s : State) : Outcome × State :=
  match prepare config (dailyPath config entry.now) entry.refused s with
  | .error s => (.raised, s)
  | .ok s =>
      match s.file, entry.message with
      | none, _ => (.dropped, s)
      | some _, none => (.handled, s)
      | some path, some message => (.written, write path message s)

/-- The handler as it is made. -/
def init (disk : Disk) : State := ⟨disk, none, none⟩

def emitAll (config : Config) (s : State) : List Entry → List (Entry × Outcome) × State
  | [] => ([], s)
  | entry :: entries =>
      let (outcome, s) := emit config entry s
      let (results, s) := emitAll config s entries
      ((entry, outcome) :: results, s)

/-! ### Names -/

theorem join_ends (a b : String) : ∃ above, (join a b).toList = above ++ b.toList := by
  rw [join]
  split
  · exact ⟨[], rfl⟩
  · split
    · exact ⟨a.toList, String.toList_append⟩
    · exact ⟨(a ++ "/").toList, String.toList_append⟩

theorem dailyPath_ends (config : Config) (now : Day) :
    ∃ above, (dailyPath config now).toList = above ++ '.' :: "log".toList := by
  obtain ⟨above, h⟩ := join_ends
    (join (join config.logDir (toString now.year)) (twoDigits now.month))
    (twoDigits now.day ++ "-" ++ toString config.pid ++ ".log")
  refine ⟨above ++ (twoDigits now.day ++ "-" ++ toString config.pid).toList, ?_⟩
  rw [dailyPath, h, String.toList_append, List.append_assoc]
  rfl

theorem rotated_toList (path : String) (counter : Nat) :
    (rotated path counter).toList = path.toList ++ '.' :: (toString counter).toList := by
  rw [rotated, String.toList_append, String.toList_append, List.append_assoc]
  rfl

theorem rotated_inj {path path' : String} {n m : Nat} (same : rotated path n = rotated path' m) :
    path = path' ∧ n = m := by
  have chars := congrArg String.toList same
  rw [rotated_toList, rotated_toList, toString_toList, toString_toList] at chars
  obtain ⟨paths, digits⟩ := lastMark_inj (notMem_toDigits rfl n) (notMem_toDigits rfl m) chars
  exact ⟨String.ext paths, toDigits_injective digits⟩

/-- The file of a day is not one that was put aside. -/
theorem dailyPath_ne_rotated (config : Config) (now : Day) (path : String) (n : Nat) :
    dailyPath config now ≠ rotated path n := by
  intro same
  obtain ⟨above, ends⟩ := dailyPath_ends config now
  have chars := congrArg String.toList same
  rw [ends, rotated_toList, toString_toList] at chars
  obtain ⟨-, digits⟩ := lastMark_inj (by decide) (notMem_toDigits rfl n) chars
  exact notMem_toDigits (c := 'g') rfl n (by rw [← digits]; decide)

/-! ### The free number -/

theorem freeCounter_spec (disk : Disk) (path : String) (counter fuel : Nat) :
    counter ≤ freeCounter disk path counter fuel ∧
      (∀ n, counter ≤ n → n < freeCounter disk path counter fuel → rotated path n ∈ disk) ∧
      (freeCounter disk path counter fuel < counter + fuel →
        rotated path (freeCounter disk path counter fuel) ∉ disk) := by
  induction fuel generalizing counter with
  | zero =>
      rw [freeCounter]
      exact ⟨le_refl _, fun n low high => by omega, fun less => by omega⟩
  | succ fuel ih =>
      rw [freeCounter]
      split
      · next taken =>
          obtain ⟨low, below, free⟩ := ih (counter + 1)
          refine ⟨by omega, fun n from_ upto => ?_, fun less => free (by omega)⟩
          obtain rfl | later := Nat.eq_or_lt_of_le from_
          · exact taken
          · exact below n later upto
      · next free => exact ⟨le_refl _, fun n low high => by omega, fun _ => free⟩

/-- There are not as many numbers taken as there are files. -/
theorem freeCounter_free (disk : Disk) {path : String} (there : path ∈ disk)
    (unnumbered : ∀ n, path ≠ rotated path n) :
    rotated path (freeCounter disk path 1 disk.keys.length) ∉ disk := by
  obtain ⟨low, below, free⟩ := freeCounter_spec disk path 1 disk.keys.length
  by_cases less : freeCounter disk path 1 disk.keys.length < 1 + disk.keys.length
  · exact free less
  · -- Then every file has a number of this path, and the path itself is one more.
    have names : ((List.range' 1 disk.keys.length).map (rotated path)).Nodup :=
      List.Nodup.map (fun n m same => (rotated_inj same).2) List.nodup_range'
    have more : (path :: (List.range' 1 disk.keys.length).map (rotated path)).Nodup := by
      refine List.nodup_cons.mpr ⟨fun mem => ?_, names⟩
      obtain ⟨n, -, same⟩ := List.mem_map.mp mem
      exact unnumbered n same.symm
    have among : path :: (List.range' 1 disk.keys.length).map (rotated path) ⊆ disk.keys := by
      intro name mem
      rw [← AList.mem_keys]
      obtain rfl | mem := List.mem_cons.mp mem
      · exact there
      · obtain ⟨n, hn, rfl⟩ := List.mem_map.mp mem
        obtain ⟨from_, upto⟩ := List.mem_range'_1.mp hn
        exact below n from_ (by omega)
    have fits := (List.subperm_of_subset more among).length_le
    rw [List.length_cons, List.length_map, List.length_range'] at fits
    omega

/-! ### What is logged under a path -/

section Contents

variable {disk : Disk} {path other : String} {node : Node}

theorem content_eq {disk' : Disk} (same : disk'.lookup path = disk.lookup path) :
    disk'.content path = disk.content path := by
  rw [Disk.content, Disk.content, same]

theorem content_insert (content : List UInt8) :
    Disk.content (disk.insert path (.file content)) path = content := by
  rw [Disk.content, AList.lookup_insert]

theorem content_insert_ne (ne : other ≠ path) :
    Disk.content (disk.insert path node) other = disk.content other :=
  content_eq (AList.lookup_insert_ne ne)

theorem content_missing (missing : path ∉ disk) : disk.content path = [] := by
  rw [Disk.content, AList.lookup_eq_none.mpr missing]

/-- The files of a path that were put aside have the numbers from 1 to `k`. -/
def Numbered (disk : Disk) (path : String) (k : Nat) : Prop :=
  ∀ n, 0 < n → (rotated path n ∈ disk ↔ n ≤ k)

/-- The files that were put aside in the order of their numbers, and then the file itself. -/
def logged (disk : Disk) (path : String) (k : Nat) : List UInt8 :=
  (List.range' 1 k).flatMap (fun n => disk.content (rotated path n)) ++ disk.content path

theorem logged_eq {disk' : Disk} {k : Nat}
    (aside : ∀ n, disk'.content (rotated path n) = disk.content (rotated path n)) :
    logged disk' path k =
      (List.range' 1 k).flatMap (fun n => disk.content (rotated path n)) ++ disk'.content path := by
  rw [logged, funext aside]

/-- What is logged under the path grows by these bytes. -/
def Appends (path : String) (s s' : State) (bytes : List UInt8) : Prop :=
  ∀ k, Numbered s.disk path k →
    ∃ k', Numbered s'.disk path k' ∧ logged s'.disk path k' = logged s.disk path k ++ bytes

theorem Appends.refl (path : String) (s : State) : Appends path s s [] :=
  fun k numbered => ⟨k, numbered, (List.append_nil _).symm⟩

theorem Appends.trans {s s' s'' : State} {bytes bytes' : List UInt8}
    (first : Appends path s s' bytes) (second : Appends path s' s'' bytes') :
    Appends path s s'' (bytes ++ bytes') := by
  intro k numbered
  obtain ⟨k', numbered', logged'⟩ := first k numbered
  obtain ⟨k'', numbered'', logged''⟩ := second k' numbered'
  exact ⟨k'', numbered'', by rw [logged'', logged', List.append_assoc]⟩

/-- No file of the path comes, goes or changes. -/
theorem Appends.frame {s s' : State} (own : s'.disk.content path = s.disk.content path)
    (aside : ∀ n, s'.disk.lookup (rotated path n) = s.disk.lookup (rotated path n)) :
    Appends path s s' [] := by
  refine fun k numbered => ⟨k, fun n positive => ?_, ?_⟩
  · rw [← AList.lookup_isSome, aside, AList.lookup_isSome]
    exact numbered n positive
  · rw [logged_eq fun n => content_eq (aside n), own, List.append_nil]
    rfl

end Contents

/-! ### What one record does -/

section Steps

variable {config : Config} {s s' : State} {path p : String} {refused : Bool}

/-- A path that is no numbered one. -/
def Plain (path : String) : Prop := ∀ other n, path ≠ rotated other n

/-- The state that a part of `emit` ends with. -/
def after : Except State State → State
  | .ok s => s
  | .error s => s

theorem openFile_appends (plain : Plain path) :
    Appends p s (after (openFile path refused s)) [] := by
  rw [openFile]
  split
  · exact .refl p s
  · split
    · exact .refl p s
    · exact .refl p s
    · next missing =>
        -- An empty file holds what a missing one held.
        refine .frame ?_ fun n => AList.lookup_insert_ne (plain p n).symm
        by_cases same : p = path
        · subst same
          exact (content_insert []).trans (content_missing (AList.lookup_eq_none.mp missing)).symm
        · exact content_insert_ne same

theorem rotate_appends (plain : Plain path) (plain' : Plain p) (there : path ∈ s.disk) :
    Appends p s (rotate path refused s) [] := by
  have free := freeCounter_free s.disk there fun n => plain path n
  obtain ⟨positive, below, -⟩ := freeCounter_spec s.disk path 1 s.disk.keys.length
  rw [rotate]
  generalize freeCounter s.disk path 1 s.disk.keys.length = counter at free positive below
  split
  · exact .refl p s
  · split
    · exact .refl p s
    · next node found =>
        by_cases same : p = path
        · subst same
          intro k numbered
          -- The first free number is the next one.
          have next : counter = k + 1 := by
            have above := (numbered counter positive).not.mp free
            by_contra ne
            exact above (by
              have taken := (numbered (counter - 1) (by omega)).mp (below _ (by omega) (by omega))
              omega)
          subst next
          refine ⟨k + 1, fun n hn => ?_, ?_⟩
          · rw [AList.mem_insert, AList.mem_erase, numbered n hn]
            constructor
            · rintro (own | ⟨-, old⟩)
              · exact le_of_eq (rotated_inj own).2
              · omega
            · intro upto
              obtain rfl | old := Nat.eq_or_lt_of_le upto
              · exact .inl rfl
              · exact .inr ⟨(plain p n).symm, by omega⟩
          · have own : Disk.content ((s.disk.erase p).insert (rotated p (k + 1)) node) p = [] := by
              rw [content_insert_ne (plain p _)]
              exact content_missing fun mem => (AList.mem_erase.mp mem).1 rfl
            have moved : Disk.content ((s.disk.erase p).insert (rotated p (k + 1)) node)
                (rotated p (k + 1)) = s.disk.content p := by
              rw [Disk.content, AList.lookup_insert, Disk.content, found]
            have kept : ∀ n ∈ List.range' 1 k,
                Disk.content ((s.disk.erase p).insert (rotated p (k + 1)) node) (rotated p n) =
                  s.disk.content (rotated p n) := by
              intro n hn
              have upto := (List.mem_range'_1.mp hn).2
              rw [content_insert_ne fun own => ?_, content_eq (AList.lookup_erase_ne (plain p n).symm)]
              have := (rotated_inj own).2
              omega
            rw [logged, logged, List.range'_1_concat, List.flatMap_append, List.flatMap_singleton,
              Nat.add_comm 1 k, moved, own, List.append_nil, List.append_nil,
              List.flatMap_congr kept]
        · refine .frame ?_ fun n => ?_
          · rw [content_insert_ne (plain' path counter)]
            exact content_eq (AList.lookup_erase_ne same)
          · rw [AList.lookup_insert_ne fun own => same (rotated_inj own).1]
            exact AList.lookup_erase_ne (plain p n).symm

theorem write_appends (plain : Plain path) (message : String) :
    Appends p s (write path message s) (if path = p then line message else []) := by
  split
  · next same =>
      subst same
      intro k numbered
      have aside : ∀ n, (write path message s).disk.lookup (rotated path n) =
          s.disk.lookup (rotated path n) :=
        fun n => AList.lookup_insert_ne (plain path n).symm
      refine ⟨k, fun n positive => ?_, ?_⟩
      · rw [← AList.lookup_isSome, aside, AList.lookup_isSome]
        exact numbered n positive
      · rw [logged_eq fun n => content_eq (aside n), logged, List.append_assoc]
        exact congrArg _ (content_insert _)
  · next ne =>
      refine .frame (content_insert_ne (Ne.symm ne)) fun n => ?_
      exact AList.lookup_insert_ne (plain p n).symm

/-- The open file is that of the current path, and is there. -/
def Sound (s : State) : Prop :=
  ∀ path, s.file = some path → s.currentPath = some path ∧ path ∈ s.disk

/-- The handler gave this path up: it is the current one, and no file is open. -/
def GivenUp (path : String) (s : State) : Prop := s.currentPath = some path ∧ s.file = none

theorem openFile_ends (current : s.currentPath = some path) :
    (∃ s', openFile path refused s = .ok s' ∧ s'.currentPath = some path ∧ s'.file = some path ∧
        path ∈ s'.disk) ∨
      openFile path refused s = .error s := by
  rw [openFile]
  split
  · exact .inr rfl
  · split
    · exact .inr rfl
    · next there =>
        exact .inl ⟨_, rfl, current, rfl, AList.lookup_isSome.mp (by rw [there]; rfl)⟩
    · exact .inl ⟨_, rfl, current, rfl, (AList.mem_insert _).mpr (.inl rfl)⟩

/-- What `emit` formats the record with: the file of the path is open, or the handler gave the
path up before. An exception of `open` leaves it given up. -/
theorem prepare_ends (config : Config) (path : String) (refused : Refusals) (sound : Sound s) :
    GivenUp path s ∧ prepare config path refused s = .ok s ∨
      ¬ GivenUp path s ∧
        ((∃ s', prepare config path refused s = .ok s' ∧ s'.currentPath = some path ∧
            s'.file = some path ∧ path ∈ s'.disk) ∨
          ∃ s', prepare config path refused s = .error s' ∧ GivenUp path s') := by
  have rolls : ∀ s : State, s.currentPath = some path → s.file = some path → path ∈ s.disk →
      (∃ s', roll config path refused s = .ok s' ∧ s'.currentPath = some path ∧
          s'.file = some path ∧ path ∈ s'.disk) ∨
        ∃ s', roll config path refused s = .error s' ∧ GivenUp path s' := by
    intro s current file there
    rw [roll]
    split
    · have kept : ∀ s : State, (rotate path refused.renames s).currentPath = s.currentPath ∧
          (rotate path refused.renames s).file = s.file := by
        intro s
        rw [rotate]
        split
        · exact ⟨rfl, rfl⟩
        · split
          · exact ⟨rfl, rfl⟩
          · exact ⟨rfl, rfl⟩
      obtain opened | failed := @openFile_ends _ path refused.reopens
        ((kept (close s)).1.trans current)
      · exact .inl opened
      · exact .inr ⟨_, failed, (kept (close s)).1.trans current, (kept (close s)).2⟩
    · exact .inl ⟨s, rfl, current, file, there⟩
  by_cases current : s.currentPath = some path
  · have same : prepare config path refused s = roll config path refused s := by
      rw [prepare, change, if_pos current]
      rfl
    cases file : s.file with
    | none =>
        refine .inl ⟨⟨current, file⟩, ?_⟩
        rw [same, roll, checkRollover, file]
        rfl
    | some other =>
        obtain ⟨current', there⟩ := sound other file
        obtain rfl := Option.some.inj (current'.symm.trans current)
        refine .inr ⟨fun givenUp => ?_, ?_⟩
        · rw [givenUp.2] at file
          cases file
        · rw [same]
          exact rolls s current file there
  · refine .inr ⟨fun givenUp => current givenUp.1, ?_⟩
    rw [prepare, change, if_neg current]
    obtain ⟨s', opened, current', file, there⟩ | failed := @openFile_ends
      { close s with currentPath := some path } path refused.opens rfl
    · rw [opened]
      exact rolls s' current' file there
    · rw [failed]
      exact .inr ⟨_, rfl, rfl, rfl⟩

theorem prepare_appends (config : Config) (refused : Refusals) (sound : Sound s)
    (plain : Plain path) (plain' : Plain p) :
    Appends p s (after (prepare config path refused s)) [] := by
  have rolls : ∀ s : State, (∀ path', s.file = some path' → path' = path ∧ path ∈ s.disk) →
      Appends p s (after (roll config path refused s)) [] := by
    intro s file
    rw [roll]
    split
    · next full =>
        have there : path ∈ s.disk := by
          rw [checkRollover] at full
          split at full
          · cases full
          · next path' opened => exact (file path' opened).2
        exact (rotate_appends (s := close s) plain plain' there).trans (openFile_appends plain)
    · exact .refl p s
  rw [prepare, change]
  split
  · next current =>
      refine rolls s fun path' opened => ?_
      obtain ⟨current', there⟩ := sound path' opened
      obtain rfl := Option.some.inj (current'.symm.trans current)
      exact ⟨rfl, there⟩
  · have opens := @openFile_appends { close s with currentPath := some path } path p
      refused.opens plain
    obtain ⟨s', opened, -, file, there⟩ | failed := @openFile_ends
      { close s with currentPath := some path } path refused.opens rfl
    · rw [opened] at opens ⊢
      exact Appends.trans opens (rolls s' fun path' h => ⟨Option.some.inj (h.symm.trans file), there⟩)
    · rw [failed]
      exact .refl p s

theorem dailyPath_plain (config : Config) (now : Day) : Plain (dailyPath config now) :=
  dailyPath_ne_rotated config now

/-- The bytes of a record, if it was written under this path. -/
def lineUnder (config : Config) (path : String) : Entry × Outcome → List UInt8
  | (⟨now, some message, _⟩, .written) => if dailyPath config now = path then line message else []
  | _ => []

theorem lineUnder_of_ne {entry : Entry} {outcome : Outcome} (ne : outcome ≠ .written) :
    lineUnder config path (entry, outcome) = [] := by
  rw [lineUnder]
  rintro now message refused ⟨⟩
  exact ne rfl

theorem emit_appends (entry : Entry) (sound : Sound s) (plain : Plain p) :
    Appends p s (emit config entry s).2
      (lineUnder config p (entry, (emit config entry s).1)) := by
  have prepared := prepare_appends config entry.refused sound
    (dailyPath_plain config entry.now) plain
  rw [emit]
  obtain ⟨givenUp, same⟩ | ⟨-, ⟨s', opened, -, file, -⟩ | ⟨s', failed, -⟩⟩ :=
    prepare_ends config (dailyPath config entry.now) entry.refused sound
  · rw [same]
    simp only [givenUp.2]
    rw [lineUnder_of_ne (by simp)]
    exact .refl p s
  · rw [opened] at prepared ⊢
    obtain ⟨now, message, refused⟩ := entry
    simp only [file]
    cases message with
    | none =>
        rw [lineUnder_of_ne (by simp)]
        exact prepared
    | some message => exact prepared.trans (write_appends (dailyPath_plain config now) message)
  · rw [failed] at prepared ⊢
    rw [lineUnder_of_ne (by simp)]
    exact prepared

/-- How one record ends. -/
theorem emit_ends (entry : Entry) (sound : Sound s) :
    Sound (emit config entry s).2 ∧
      (emit config entry s).2.currentPath = some (dailyPath config entry.now) ∧
      ((emit config entry s).1 = .dropped ↔ GivenUp (dailyPath config entry.now) s) ∧
      (GivenUp (dailyPath config entry.now) (emit config entry s).2 ↔
        (emit config entry s).1 = .raised ∨ (emit config entry s).1 = .dropped) := by
  have closed : ∀ {s : State}, s.file = none → Sound s := by
    intro s file path h
    rw [file] at h
    cases h
  rw [emit]
  obtain ⟨givenUp, same⟩ | ⟨still, ⟨s', opened, current, file, there⟩ | ⟨s', failed, givenUp⟩⟩ :=
    prepare_ends config (dailyPath config entry.now) entry.refused sound
  · rw [same]
    simp only [givenUp.2]
    exact ⟨sound, givenUp.1, by simp [givenUp], by simp [givenUp]⟩
  · rw [opened]
    have stays : ¬ GivenUp (dailyPath config entry.now) s' := fun h => by simp [h.2] at file
    cases message : entry.message with
    | none =>
        simp only [file]
        refine ⟨fun path h => ?_, current, by simpa using still, by simpa using stays⟩
        obtain rfl := Option.some.inj (file.symm.trans h)
        exact ⟨current, there⟩
    | some message =>
        simp only [file]
        refine ⟨fun path h => ?_, current, by simpa using still,
          iff_of_false (fun h => stays h) (by simp)⟩
        obtain rfl := Option.some.inj (file.symm.trans h)
        exact ⟨current, (AList.mem_insert _).mpr (.inl rfl)⟩
  · rw [failed]
    exact ⟨closed givenUp.2, givenUp.1, by simpa using still, by simpa using givenUp⟩

end Steps

/-! ### Runs -/

section Runs

variable {config : Config} {disk : Disk}

theorem init_sound (disk : Disk) : Sound (init disk) := by
  intro path h
  cases h

theorem emitAll_concat (config : Config) (s : State) (entries : List Entry) (entry : Entry) :
    emitAll config s (entries ++ [entry]) =
      ((emitAll config s entries).1 ++
          [(entry, (emit config entry (emitAll config s entries).2).1)],
        (emit config entry (emitAll config s entries).2).2) := by
  induction entries generalizing s with
  | nil => rfl
  | cons first entries ih =>
      simp only [List.cons_append, emitAll, ih]

theorem emitAll_sound (entries : List Entry) : Sound (emitAll config (init disk) entries).2 := by
  induction entries using List.reverseRecOn with
  | nil => exact init_sound disk
  | append_singleton entries entry ih =>
      rw [emitAll_concat]
      exact (emit_ends entry ih).1

/-- Nothing that is logged under a day is ever lost, overwritten or moved out of its order: over
any run the log of a day grows by the lines that were written on it, one after the other. -/
theorem log_grows (config : Config) (disk : Disk) (entries : List Entry) (day : Day) {k : Nat}
    (numbered : Numbered disk (dailyPath config day) k) :
    ∃ k', Numbered (emitAll config (init disk) entries).2.disk (dailyPath config day) k' ∧
      logged (emitAll config (init disk) entries).2.disk (dailyPath config day) k' =
        logged disk (dailyPath config day) k ++
          (emitAll config (init disk) entries).1.flatMap
            (lineUnder config (dailyPath config day)) := by
  suffices grows : Appends (dailyPath config day) (init disk)
      (emitAll config (init disk) entries).2 ((emitAll config (init disk) entries).1.flatMap
        (lineUnder config (dailyPath config day))) from grows k numbered
  induction entries using List.reverseRecOn with
  | nil => exact .refl _ _
  | append_singleton entries entry ih =>
      rw [emitAll_concat, List.flatMap_append, List.flatMap_singleton]
      exact ih.trans (emit_appends entry (emitAll_sound entries) (dailyPath_plain config day))

/-- Two records of one day; the second one finds the file full. -/
theorem log_grows_twice :
    ∃ k, Numbered (emitAll ⟨"/var/log", 3, 7⟩ (init ∅)
          (List.replicate 2 ⟨⟨2024, 5, 1⟩, some "up", ⟨false, false, false, false⟩⟩)).2.disk
        (dailyPath ⟨"/var/log", 3, 7⟩ ⟨2024, 5, 1⟩) k ∧
      logged (emitAll ⟨"/var/log", 3, 7⟩ (init ∅)
          (List.replicate 2 ⟨⟨2024, 5, 1⟩, some "up", ⟨false, false, false, false⟩⟩)).2.disk
        (dailyPath ⟨"/var/log", 3, 7⟩ ⟨2024, 5, 1⟩) k =
      logged ∅ (dailyPath ⟨"/var/log", 3, 7⟩ ⟨2024, 5, 1⟩) 0 ++
        (emitAll ⟨"/var/log", 3, 7⟩ (init ∅)
          (List.replicate 2 ⟨⟨2024, 5, 1⟩, some "up", ⟨false, false, false, false⟩⟩)).1.flatMap
            (lineUnder ⟨"/var/log", 3, 7⟩ (dailyPath ⟨"/var/log", 3, 7⟩ ⟨2024, 5, 1⟩)) := by
  refine log_grows ⟨"/var/log", 3, 7⟩ ∅ _ ⟨2024, 5, 1⟩ fun n positive => ?_
  exact iff_of_false (AList.notMem_empty _) (by omega)

/-- The last attempt to open the file of this path failed, and every record since then was one
of this path. -/
def FailedSince (config : Config) (path : String) (results : List (Entry × Outcome)) : Prop :=
  ∃ before failed between, results = before ++ (failed, .raised) :: between ∧
    dailyPath config failed.now = path ∧
    ∀ later ∈ between, dailyPath config later.1.now = path

theorem failedSince_concat {path : String} {results : List (Entry × Outcome)} {entry : Entry}
    {outcome : Outcome} :
    FailedSince config path (results ++ [(entry, outcome)]) ↔
      dailyPath config entry.now = path ∧
        (outcome = .raised ∨ FailedSince config path results) := by
  constructor
  · rintro ⟨before, failed, between, h, own, since⟩
    cases between using List.reverseRecOn with
    | nil =>
        obtain ⟨-, last⟩ := List.append_inj' h rfl
        obtain ⟨rfl, rfl⟩ := Prod.mk.inj (List.cons.inj last).1
        exact ⟨own, .inl rfl⟩
    | append_singleton between later =>
        rw [← List.cons_append, ← List.append_assoc] at h
        obtain ⟨same, last⟩ := List.append_inj' h rfl
        have later_eq := (List.cons.inj last).1
        subst later_eq
        refine ⟨since (entry, outcome) (List.mem_append_right _ (List.mem_singleton_self _)),
          .inr ⟨before, failed, between, same, own, fun x hx => ?_⟩⟩
        exact since x (List.mem_append_left _ hx)
  · rintro ⟨own, rfl | ⟨before, failed, between, rfl, first, since⟩⟩
    · exact ⟨results, entry, [], rfl, own, by simp⟩
    · refine ⟨before, failed, between ++ [(entry, outcome)], by rw [List.append_assoc]; rfl,
        first, fun x hx => ?_⟩
      obtain hx | hx := List.mem_append.mp hx
      · exact since x hx
      · rw [List.mem_singleton.mp hx]
        exact own

/-- A record is lost without a word exactly if the last attempt to open the file of its day
failed, and every record since then was one of the same day. -/
theorem dropped_iff (config : Config) (disk : Disk) (entries : List Entry) (entry : Entry) :
    (emit config entry (emitAll config (init disk) entries).2).1 = .dropped ↔
      FailedSince config (dailyPath config entry.now) (emitAll config (init disk) entries).1 := by
  rw [(emit_ends entry (emitAll_sound entries)).2.2.1]
  generalize dailyPath config entry.now = path
  induction entries using List.reverseRecOn with
  | nil =>
      constructor
      · intro givenUp
        cases givenUp.1
      · rintro ⟨before, failed, between, h, -⟩
        exact absurd h (by simp [emitAll])
  | append_singleton entries last ih =>
      obtain ⟨-, current, dropped, givenUp⟩ := emit_ends last
        (@emitAll_sound config disk entries)
      rw [emitAll_concat, failedSince_concat]
      by_cases same : dailyPath config last.now = path
      · subst same
        rw [givenUp, dropped, ih]
        exact (and_iff_right rfl).symm
      · refine iff_of_false (fun other => same ?_) fun other => same other.1
        exact Option.some.inj (current.symm.trans other.1)

/-! ### Sizes -/

section Sizes

variable {s : State} {path : String} {refused : Refusals} {bound : Nat}

/-- No file is larger. -/
def AtMost (bound : Nat) (disk : Disk) : Prop := ∀ path, (disk.content path).length ≤ bound

theorem AtMost.insert (atMost : AtMost bound disk) {content : List UInt8}
    (fits : content.length ≤ bound) : AtMost bound (disk.insert path (.file content)) := by
  intro other
  by_cases same : other = path
  · rw [same, content_insert]
    exact fits
  · rw [content_insert_ne same]
    exact atMost other

theorem openFile_atMost (atMost : AtMost bound s.disk) (refused : Bool) :
    AtMost bound (after (openFile path refused s)).disk := by
  rw [openFile]
  split
  · exact atMost
  · split
    · exact atMost
    · exact atMost
    · exact atMost.insert (Nat.zero_le _)

theorem rotate_atMost (atMost : AtMost bound s.disk) (refused : Bool) :
    AtMost bound (rotate path refused s).disk := by
  rw [rotate]
  split
  · exact atMost
  · split
    · exact atMost
    · next node found =>
        intro other
        by_cases new : other = rotated path (freeCounter s.disk path 1 s.disk.keys.length)
        · have moved := atMost path
          rw [Disk.content, found] at moved
          rw [new, Disk.content, AList.lookup_insert]
          exact moved
        · rw [content_insert_ne new]
          by_cases same : other = path
          · rw [same, content_missing fun mem => (AList.mem_erase.mp mem).1 rfl]
            exact Nat.zero_le _
          · rw [content_eq (AList.lookup_erase_ne same)]
            exact atMost other

theorem openFile_content {refused : Bool} {s' : State} (h : openFile path refused s = .ok s') :
    s'.disk.content path = s.disk.content path := by
  rw [openFile] at h
  split at h
  · cases h
  · split at h
    · cases h
    · cases h
      rfl
    · next missing =>
        cases h
        rw [content_insert, content_missing (AList.lookup_eq_none.mp missing)]

/-- The file that a record goes to is not above the limit, if the system does its part. -/
theorem roll_makes_room (plain : Plain path) (tells : refused.tells = false)
    (renames : refused.renames = false) {s' : State}
    (file : s.file = some path) (there : path ∈ s.disk)
    (h : roll config path refused s = .ok s') :
    (s'.disk.content path).length ≤ config.maxBytes := by
  have full : checkRollover config refused.tells s =
      decide (config.maxBytes ≤ (s.disk.content path).length) := by
    rw [checkRollover, file, tells]
    rfl
  rw [roll, full] at h
  by_cases large : config.maxBytes ≤ (s.disk.content path).length
  · have gone : Disk.content (rotate path refused.renames (close s)).disk path = [] := by
      obtain ⟨node, found⟩ := Option.isSome_iff_exists.mp (AList.lookup_isSome.mpr there)
      rw [rotate, renames, if_neg Bool.false_ne_true]
      simp only [close, found]
      rw [content_insert_ne (plain path _)]
      exact content_missing fun mem => (AList.mem_erase.mp mem).1 rfl
    rw [if_pos (decide_eq_true large)] at h
    rw [openFile_content h, gone]
    exact Nat.zero_le _
  · rw [if_neg (by simpa using large)] at h
    cases h
    omega

theorem prepare_atMost (config : Config) (refused : Refusals) (atMost : AtMost bound s.disk) :
    AtMost bound (after (prepare config path refused s)).disk := by
  have rolls : ∀ s : State, AtMost bound s.disk →
      AtMost bound (after (roll config path refused s)).disk := by
    intro s atMost
    rw [roll]
    split
    · exact openFile_atMost (rotate_atMost (s := close s) atMost _) _
    · exact atMost
  rw [prepare, change]
  split
  · exact rolls s atMost
  · have opened := @openFile_atMost { close s with currentPath := some path } path bound atMost
      refused.opens
    cases h : openFile path refused.opens { close s with currentPath := some path } with
    | ok s' =>
        rw [h] at opened
        exact rolls s' opened
    | error s' =>
        rw [h] at opened
        exact opened

theorem prepare_makes_room (sound : Sound s) (plain : Plain path) (tells : refused.tells = false)
    (renames : refused.renames = false) (still : ¬ GivenUp path s) {s' : State}
    (h : prepare config path refused s = .ok s') :
    (s'.disk.content path).length ≤ config.maxBytes := by
  rw [prepare, change] at h
  split at h
  · next current =>
      cases opened : s.file with
      | none => exact absurd ⟨current, opened⟩ still
      | some path' =>
          obtain ⟨current', there⟩ := sound path' opened
          obtain rfl := Option.some.inj (current'.symm.trans current)
          exact roll_makes_room plain tells renames opened there h
  · obtain ⟨s₁, opened, -, file, there⟩ | failed := @openFile_ends
      { close s with currentPath := some path } path refused.opens rfl
    · rw [opened] at h
      exact roll_makes_room plain tells renames file there h
    · rw [failed] at h
      cases h

theorem emit_atMost {entry : Entry} {longest : Nat} (sound : Sound s)
    (tells : entry.refused.tells = false) (renames : entry.refused.renames = false)
    (short : ∀ message, entry.message = some message → (line message).length ≤ longest)
    (atMost : AtMost (config.maxBytes + longest) s.disk) :
    AtMost (config.maxBytes + longest) (emit config entry s).2.disk := by
  have prepared := @prepare_atMost s (dailyPath config entry.now) _ config entry.refused atMost
  rw [emit]
  obtain ⟨givenUp, same⟩ | ⟨still, ⟨s', opened, -, file, -⟩ | ⟨s', failed, -⟩⟩ :=
    prepare_ends config (dailyPath config entry.now) entry.refused sound
  · rw [same]
    simp only [givenUp.2]
    exact atMost
  · rw [opened] at prepared ⊢
    cases message : entry.message with
    | none =>
        simp only [file]
        exact prepared
    | some text =>
        simp only [file]
        refine prepared.insert ?_
        have room := prepare_makes_room sound (dailyPath_plain config entry.now) tells renames
          still opened
        have fits := short text message
        rw [List.length_append]
        omega
  · rw [failed] at prepared ⊢
    exact prepared

/-- While the system lets files be measured and renamed, no file outgrows the limit by more than
one line. -/
theorem sizes_bounded (config : Config) (disk : Disk) (entries : List Entry) (longest : Nat)
    (initial : AtMost (config.maxBytes + longest) disk)
    (willing : ∀ entry ∈ entries, entry.refused.tells = false ∧ entry.refused.renames = false)
    (short : ∀ entry ∈ entries, ∀ message, entry.message = some message →
      (line message).length ≤ longest) :
    AtMost (config.maxBytes + longest) (emitAll config (init disk) entries).2.disk := by
  induction entries using List.reverseRecOn with
  | nil => exact initial
  | append_singleton entries entry ih =>
      have last : entry ∈ entries ++ [entry] := by simp
      rw [emitAll_concat]
      refine emit_atMost (emitAll_sound entries) (willing entry last).1 (willing entry last).2
        (short entry last) (ih ?_ ?_)
      · exact fun e he => willing e (List.mem_append_left _ he)
      · exact fun e he => short e (List.mem_append_left _ he)

theorem sizes_bounded_twice :
    AtMost (3 + 3) (emitAll ⟨"/var/log", 3, 7⟩ (init ∅)
      (List.replicate 2 ⟨⟨2024, 5, 1⟩, some "up", ⟨false, false, false, false⟩⟩)).2.disk := by
  refine sizes_bounded ⟨"/var/log", 3, 7⟩ ∅ _ 3 (fun path => ?_) (by decide) fun entry h => ?_
  · rw [content_missing (AList.notMem_empty path)]
    exact Nat.zero_le _
  · rw [List.eq_of_mem_replicate h]
    rintro message ⟨⟩
    decide

end Sizes

end Runs

end DailyFileHandler

end AcojWorker
