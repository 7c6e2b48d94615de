import AcojWorker.Judge.Checker

/-!
# What output comparison decides

Newlines are translated on one of the two routes only, so a carriage return inside an
output makes the answer depend on how the two sides are carried. And a reference that
nothing can be read from is taken for the absence of an expected output, which every
answer matches.
-/

namespace AcojWorker

open Python

/-- The ways a reference carries a content. -/
inductive Carrier where
  | path
  | bytes
  | str
deriving DecidableEq

/-- A reference to a content; a path is a name under which the content is stored. -/
def Carrier.ref (carrier : Carrier) (name : String) (data : Bytes) : DataRef :=
  match carrier with
  | .path => ⟨some name, .none⟩
  | .bytes => ⟨none, .bytes data⟩
  | .str => ⟨none, .str (String.ofList (decodeUtf8 data))⟩

/-- The content of an output, blanks at its ends removed. -/
def strippedText (data : Bytes) : List Char := strip (decodeUtf8 data)

/-- The text a carrier is read as. -/
def Carrier.text (carrier : Carrier) (data : Bytes) : List Char :=
  match carrier with
  | .path => translateNewlines (decodeUtf8 data)
  | _ => decodeUtf8 data

theorem Carrier.strip_text (carrier : Carrier) (data : Bytes) :
    strip (carrier.text data) =
      if carrier = .path then translateNewlines (strippedText data) else strippedText data := by
  cases carrier with
  | path => exact strip_translateNewlines _
  | bytes => rfl
  | str => rfl

section Carriers

variable {files : Files} {name other : String} {data expectedData : Bytes}

theorem existingFile_ref (stored : files name = .content data) (carrier : Carrier) :
    existingFile files (some (carrier.ref name data)) =
      if carrier = .path then some (.content data) else none := by
  cases carrier <;> simp [existingFile, Carrier.ref, stored]

theorem refFullText_ref (stored : files name = .content data) (carrier : Carrier) :
    refFullText files (some (carrier.ref name data)) = .ok (some (carrier.text data)) := by
  rw [refFullText, existingFile_ref stored]
  cases carrier with
  | path => rfl
  | bytes => rfl
  | str => simp [Carrier.ref, Carrier.text]

/-- Two files are compared as they are; otherwise the file, if there is one, is translated. -/
theorem outputsMatch_ref (actualStored : files name = .content data)
    (expectedStored : files other = .content expectedData) (c d : Carrier) :
    outputsMatch files (some (c.ref name data)) (some (d.ref other expectedData)) =
      .ok (if c = .path ∧ d = .path then decide (strippedText data = strippedText expectedData)
        else decide (strip (c.text data) = strip (d.text expectedData))) := by
  rw [outputsMatch, existingFile_ref actualStored, existingFile_ref expectedStored,
    refFullText_ref actualStored, refFullText_ref expectedStored]
  by_cases hc : c = .path
  · by_cases hd : d = .path
    · simp only [hc, hd, if_true, and_self, Option.isNone_some, Bool.false_eq_true, if_false]
      exact pathsMatchStripped_content (Nat.zero_lt_succ _) data expectedData
    · simp [hc, hd, checkOutput, bind, Except.bind, pure, Except.pure]
  · by_cases hd : d = .path <;>
      simp [hc, hd, checkOutput, bind, Except.bind, pure, Except.pure]

/-- The answer does not depend on the carriers exactly when translating the newlines of
one side changes nothing: equal outputs have no carriage return inside, and outputs that
differ still differ after translating either of them. -/
theorem outputsMatch_carriers (actualStored : files name = .content data)
    (expectedStored : files other = .content expectedData) :
    (∀ c d c' d' : Carrier,
      outputsMatch files (some (c.ref name data)) (some (d.ref other expectedData)) =
        outputsMatch files (some (c'.ref name data)) (some (d'.ref other expectedData))) ↔
    (strippedText data = strippedText expectedData → '\r' ∉ strippedText data) ∧
    (strippedText data ≠ strippedText expectedData →
      translateNewlines (strippedText data) ≠ strippedText expectedData ∧
      strippedText data ≠ translateNewlines (strippedText expectedData)) := by
  simp only [outputsMatch_ref actualStored expectedStored, Except.ok.injEq, Carrier.strip_text]
  generalize strippedText data = a
  generalize strippedText expectedData = e
  constructor
  · intro agree
    have left : translateNewlines a = e ↔ a = e := by simpa using agree .path .str .str .str
    have right : a = translateNewlines e ↔ a = e := by simpa using agree .str .path .str .str
    refine ⟨?_, fun differ => ⟨mt left.mp differ, mt right.mp differ⟩⟩
    intro same
    exact translateNewlines_eq_self.mp ((left.mpr same).trans same.symm)
  · rintro ⟨clean, apart⟩
    have left : translateNewlines a = e ↔ a = e := by
      refine ⟨fun h => ?_, fun same => ?_⟩
      · by_contra differ
        exact (apart differ).1 h
      · exact (translateNewlines_eq_self.mpr (clean same)).trans same
    have right : a = translateNewlines e ↔ a = e := by
      refine ⟨fun h => ?_, fun same => ?_⟩
      · by_contra differ
        exact (apart differ).2 h
      · exact same.trans (translateNewlines_eq_self.mpr (same ▸ clean same)).symm
    -- Every combination of carriers answers what two texts are answered.
    have answer : ∀ c d : Carrier,
        (if c = .path ∧ d = .path then decide (a = e)
          else decide ((if c = .path then translateNewlines a else a) =
            if d = .path then translateNewlines e else e)) = decide (a = e) := by
      intro c d
      by_cases hc : c = .path <;> by_cases hd : d = .path <;> simp [hc, hd, left, right]
    intro c d c' d'
    rw [answer, answer]

/-- Two outputs of one line agree however they are carried. -/
theorem outputsMatch_carriers_line :
    ¬ ∃ c d c' d' : Carrier,
      outputsMatch (fun _ => .content [51, 10]) (some (c.ref "actual" [51, 10]))
          (some (d.ref "expected" [51, 10])) ≠
        outputsMatch (fun _ => .content [51, 10]) (some (c'.ref "actual" [51, 10]))
          (some (d'.ref "expected" [51, 10])) := by
  rintro ⟨c, d, c', d', differ⟩
  apply differ
  exact (outputsMatch_carriers rfl rfl).mpr ⟨fun _ => by decide, fun h => absurd rfl h⟩ c d c' d'

/-- A carriage return inside the output: two files match, a file and a text do not. -/
theorem outputsMatch_carriage_return :
    ¬ ∀ c d c' d' : Carrier,
      outputsMatch (fun _ => .content [97, 13, 10, 98]) (some (c.ref "actual" [97, 13, 10, 98]))
          (some (d.ref "expected" [97, 13, 10, 98])) =
        outputsMatch (fun _ => .content [97, 13, 10, 98])
          (some (c'.ref "actual" [97, 13, 10, 98])) (some (d'.ref "expected" [97, 13, 10, 98])) := by
  intro agree
  have := agree .path .path .path .str
  exact absurd this (by decide +kernel)

end Carriers

section LostFile

variable (files : Files)

/-- The content an actual output stands for; nothing to read is the empty output. -/
def DataRef.content (ref : DataRef) : List Char :=
  match existingFile files (some ref) with
  | some (.content data) => decodeUtf8 data
  | some _ => []
  | none =>
      match ref.data with
      | .bytes data => decodeUtf8 data
      | .str text => text.toList
      | .none => []

/-- A reference to a file by its path. -/
def DataRef.ofPath (path : String) : DataRef := ⟨some path, .none⟩

variable {files} {path : String} {data : Bytes} {actual : DataRef}

theorem outputsMatch_missing (lost : files path = .missing) :
    outputsMatch files (some actual) (some (.ofPath path)) = .ok true := by
  have absent : existingFile files (some (.ofPath path)) = none := by
    simp [existingFile, DataRef.ofPath, lost]
  have unread : refFullText files (some (.ofPath path)) = .ok none := by
    rw [refFullText, absent]
    rfl
  rw [outputsMatch, absent, unread]
  cases existingFile files (some actual) <;> rfl

theorem outputsMatch_unreadable {e : Exc} (broken : files path = .unreadable e) :
    outputsMatch files (some actual) (some (.ofPath path)) ≠ .ok true := by
  have found : existingFile files (some (.ofPath path)) = some (.unreadable e) := by
    simp [existingFile, DataRef.ofPath, broken]
  have unread : refFullText files (some (.ofPath path)) = .error e := by
    rw [refFullText, found]
    rfl
  rw [outputsMatch, found, unread]
  rcases existingFile files (some actual) with _ | (_ | _ | _) <;> exact nofun

/-- The stored expected output, compared with a file or with a text. -/
theorem outputsMatch_stored (stored : files path = .content data) :
    outputsMatch files (some actual) (some (.ofPath path)) = .ok true ↔
      match existingFile files (some actual) with
      | some (.content found) => strippedText found = strippedText data
      | some _ => False
      | none => strip (actual.content files) = translateNewlines (strippedText data) := by
  have found : existingFile files (some (.ofPath path)) = some (.content data) := by
    simp [existingFile, DataRef.ofPath, stored]
  have text : refFullText files (some (.ofPath path)) =
      .ok (some (translateNewlines (decodeUtf8 data))) := by
    rw [refFullText, found]
    rfl
  rw [outputsMatch, found, text, DataRef.content]
  cases hactual : existingFile files (some actual) with
  | some file =>
      cases file with
      | content other =>
          simp [pathsMatchStripped_content, strippedText]
      | missing => simp [pathsMatchStripped, File.readBytes, bind, Except.bind]
      | unreadable e => simp [pathsMatchStripped, File.readBytes, bind, Except.bind]
  | none =>
      rw [refFullText, hactual, strippedText, ← strip_translateNewlines]
      cases actual.data <;> simp [checkOutput, bind, Except.bind, pure, Except.pure]

/-- An accepted answer was compared with the expected file exactly when that file still
exists, and the newlines of its content did not have to be translated to make an output
that is not in a file equal to it. -/
theorem outputsMatch_ofPath (files : Files) (actual : DataRef) (path : String) :
    (outputsMatch files (some actual) (some (.ofPath path)) = .ok true →
      ∃ data, files path = .content data ∧
        strippedText data = strip (actual.content files)) ↔
    files path ≠ .missing ∧
      ∀ data, files path = .content data → existingFile files (some actual) = none →
        strip (actual.content files) = translateNewlines (strippedText data) →
        strip (actual.content files) = strippedText data := by
  cases hpath : files path with
  | missing =>
      simp only [outputsMatch_missing hpath, true_imp_iff, reduceCtorEq, false_and, exists_false,
        ne_eq, not_true_eq_false]
  | unreadable e =>
      simp only [outputsMatch_unreadable hpath, false_imp_iff, ne_eq, reduceCtorEq,
        not_false_eq_true, implies_true, and_self]
  | content data =>
      simp only [outputsMatch_stored hpath, File.content.injEq, exists_eq_left', ne_eq,
        reduceCtorEq, not_false_eq_true, true_and, forall_eq']
      cases hactual : existingFile files (some actual) with
      | some file =>
          cases file with
          | content other => simp [DataRef.content, hactual, strippedText, eq_comm]
          | missing => simp
          | unreadable e => simp
      | none => simp [eq_comm]

/-- The expected file was evicted before the comparison: every answer is accepted. -/
theorem outputsMatch_lost_file :
    ¬ (outputsMatch (fun _ => .missing) (some ⟨none, .str "4"⟩) (some (.ofPath "out.txt")) =
        .ok true →
      ∃ data, (fun _ => .missing : Files) "out.txt" = .content data ∧
        strippedText data = strip (DataRef.content (fun _ => .missing) ⟨none, .str "4"⟩)) := by
  intro accepted
  obtain ⟨_, stored, _⟩ := accepted (outputsMatch_missing rfl)
  exact nomatch stored

end LostFile

end AcojWorker
