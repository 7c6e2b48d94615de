import AcojWorker.Python.Text
import AcojWorker.Python.Utf8
import AcojWorker.Python.Value

/-!
# Output comparison

An output and the expected output are compared after stripping blanks, on their full
content. A reference carries its content as a path, as bytes or as text, and there are two
comparison routines: two existing files are compared on their bytes, chunk by chunk, and
everything else on text. Text read from a file has its newlines translated; decoded bytes
have not.
-/

namespace AcojWorker

open Python

abbrev Bytes : Type := List UInt8

/-- What a path names: no regular file, a file with its content, or a file that cannot be
read. -/
inductive File where
  | missing
  | content (data : Bytes)
  | unreadable (error : Exc)

abbrev Files : Type := String → File

inductive Data where
  | none
  | bytes (data : Bytes)
  | str (text : String)

/-- The sandbox's reference to a piece of data, as far as comparison looks at it. -/
structure DataRef where
  path : Option String
  data : Data

def checkOutput (actual : List Char) (expectedText : Option (List Char)) : Bool :=
  match expectedText with
  | none => true
  | some expected => strip actual = strip expected

/-- `path.read_bytes()`. -/
def File.readBytes : File → Except Exc Bytes
  | .content data => .ok data
  | .unreadable e => .error e
  | .missing => .error ⟨.osError, "No such file or directory"⟩

/-- `path.read_text(encoding="utf-8", errors="replace")`. -/
def File.readText (file : File) : Except Exc (List Char) := do
  let data ← file.readBytes
  return translateNewlines (decodeUtf8 data)

section Comparison

variable (files : Files)

/-- The regular file a reference points to, if there is one. -/
def existingFile (ref : Option DataRef) : Option File :=
  match ref.bind DataRef.path with
  | none => none
  | some path =>
      match files path with
      | .missing => none
      | file => some file

def refFullText (ref : Option DataRef) : Except Exc (Option (List Char)) :=
  match ref with
  | none => .ok none
  | some r =>
      match existingFile files ref with
      | some file => some <$> file.readText
      | none =>
          match r.data with
          | .bytes data => .ok (some (decodeUtf8 data))
          | .str text => .ok (some text.toList)
          | .none => .ok none

/-- `data[i : i + chunk_size]` at the `k`-th step of the loop. -/
def chunk (chunkSize k : Nat) (data : Bytes) : Bytes := (data.drop (k * chunkSize)).take chunkSize

def chunksEqual (chunkSize : Nat) (a b : Bytes) : Bool :=
  (List.range ((a.length + chunkSize - 1) / chunkSize)).all fun k =>
    chunk chunkSize k a = chunk chunkSize k b

def pathsMatchStripped (chunkSize : Nat) (a b : File) : Except Exc Bool := do
  let dataA ← a.readBytes
  let dataB ← b.readBytes
  let textA := strip (decodeUtf8 dataA)
  let textB := strip (decodeUtf8 dataB)
  if textA.length ≠ textB.length then
    return false
  let bytesA := encodeUtf8 textA
  let bytesB := encodeUtf8 textB
  if bytesA.length ≠ bytesB.length then
    return false
  return chunksEqual chunkSize bytesA bytesB

def outputsMatch (actual expected : Option DataRef) : Except Exc Bool :=
  if expected.isNone then .ok true
  else
    match existingFile files actual, existingFile files expected with
    | some a, some e => pathsMatchStripped (1024 * 1024) a e
    | _, _ => do
        match ← refFullText files expected with
        | none => return true
        | some expectedText =>
            let actualText ← refFullText files actual
            return checkOutput (actualText.getD []) (some expectedText)

end Comparison

/-! ### Comparing in chunks -/

/-- Two contents of one length that agree on every chunk agree. -/
theorem chunksEqual_iff {chunkSize : Nat} (positive : 0 < chunkSize) {a b : Bytes}
    (sameLength : a.length = b.length) : chunksEqual chunkSize a b = true ↔ a = b := by
  constructor
  · intro h
    simp only [chunksEqual, List.all_eq_true, List.mem_range, decide_eq_true_eq] at h
    apply List.ext_getElem?
    intro i
    by_cases hi : i < a.length
    · have inRange : i / chunkSize < (a.length + chunkSize - 1) / chunkSize := by
        rw [Nat.lt_div_iff_mul_lt positive]
        have := Nat.div_mul_le_self i chunkSize
        omega
      have agree := congrArg (fun part => part[i % chunkSize]?) (h _ inRange)
      simpa [chunk, List.getElem?_take, Nat.mod_lt _ positive, Nat.div_add_mod'] using agree
    · rw [List.getElem?_eq_none (by omega), List.getElem?_eq_none (by omega)]
  · rintro rfl
    simp [chunksEqual]

theorem pathsMatchStripped_content {chunkSize : Nat} (positive : 0 < chunkSize) (a b : Bytes) :
    pathsMatchStripped chunkSize (.content a) (.content b) =
      .ok (decide (strip (decodeUtf8 a) = strip (decodeUtf8 b))) := by
  by_cases same : strip (decodeUtf8 a) = strip (decodeUtf8 b)
  · have equal := (chunksEqual_iff positive rfl).mpr
      (rfl : encodeUtf8 (strip (decodeUtf8 b)) = encodeUtf8 (strip (decodeUtf8 b)))
    simp [pathsMatchStripped, File.readBytes, same, equal, bind, Except.bind, pure, Except.pure]
  · have differ := mt (fun h => encodeUtf8_injective h) same
    by_cases lengths : (encodeUtf8 (strip (decodeUtf8 a))).length =
        (encodeUtf8 (strip (decodeUtf8 b))).length
    · have unequal := mt (chunksEqual_iff positive lengths).mp differ
      simp [pathsMatchStripped, File.readBytes, same, unequal, bind, Except.bind, pure,
        Except.pure]
    · simp [pathsMatchStripped, File.readBytes, same, lengths, bind, Except.bind, pure,
        Except.pure]

/-- Two readable files match if and only if their stripped texts are equal, whatever the size
of the chunks. -/
theorem pathsMatchStripped_iff {chunkSize : Nat} (positive : 0 < chunkSize) (a b : Bytes) :
    ∃ verdict, pathsMatchStripped chunkSize (.content a) (.content b) = .ok verdict ∧
      (verdict = true ↔ strip (decodeUtf8 a) = strip (decodeUtf8 b)) := by
  refine ⟨_, pathsMatchStripped_content positive a b, ?_⟩
  apply decide_eq_true_iff

/-- Two texts that differ in their tail, in chunks of two bytes. -/
theorem pathsMatchStripped_tail :
    ∃ verdict, pathsMatchStripped 2 (.content [32, 97, 98, 99]) (.content [97, 98, 100, 10]) =
        .ok verdict ∧
      (verdict = true ↔
        strip (decodeUtf8 [32, 97, 98, 99]) = strip (decodeUtf8 [97, 98, 100, 10])) :=
  pathsMatchStripped_iff (by decide) _ _

end AcojWorker
