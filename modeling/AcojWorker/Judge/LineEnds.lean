import AcojWorker.Judge.OutputComparison
import AcojWorker.Python.Lines

/-!
# Blanks at the ends of lines

The protocol has the blanks at the ends of lines ignored. The comparison strips the two texts as
wholes, so that the blanks at the ends of inner lines count, and a carriage return counts when
one of the texts comes from a file and the other does not.
-/

namespace AcojWorker

open Python

/-- Two contents that agree up to the blanks at the ends of their lines, and empty lines at the
end. -/
def SameLines (data expectedData : Bytes) : Prop :=
  bareLines (decodeUtf8 data) = bareLines (decodeUtf8 expectedData)

/-- From the first visible character to the last one, each line ends in the same blanks in both
contents, and there is no carriage return. -/
structure SameLineEnds (data expectedData : Bytes) : Prop where
  blanks : lineEnds (strippedText data) = lineEnds (strippedText expectedData)
  unreturned : '\r' ∉ strippedText data

section

variable {files : Files} {name other : String} {data expectedData : Bytes}

/-- Texts that agree up to the ends of their lines match, however they are carried, exactly if
the ends of their inner lines agree as well. -/
theorem outputsMatch_sameLines (actualStored : files name = .content data)
    (expectedStored : files other = .content expectedData) (same : SameLines data expectedData) :
    (∀ c d : Carrier, outputsMatch files (some (c.ref name data))
      (some (d.ref other expectedData)) = .ok true) ↔ SameLineEnds data expectedData := by
  have equal : strippedText data = strippedText expectedData ↔
      lineEnds (strippedText data) = lineEnds (strippedText expectedData) := strip_eq_iff same
  simp only [outputsMatch_ref actualStored expectedStored, Except.ok.injEq, Carrier.strip_text]
  constructor
  · intro matches_
    have texts : strippedText data = strippedText expectedData := by
      simpa using matches_ .str .str
    have translated : translateNewlines (strippedText data) = strippedText expectedData := by
      simpa using matches_ .path .str
    exact ⟨equal.mp texts, translateNewlines_eq_self.mp (translated.trans texts.symm)⟩
  · rintro ⟨blanks, unreturned⟩ c d
    have texts := equal.mpr blanks
    have kept := translateNewlines_eq_self.mpr unreturned
    rw [← texts, kept]
    simp

/-- Two digits on two lines, with a blank at the very end of one of the texts. -/
theorem outputsMatch_sameLines_end :
    (∀ c d : Carrier, outputsMatch (fun path => .content
          (if path = "actual" then [49, 10, 50, 32] else [49, 10, 50]))
        (some (c.ref "actual" [49, 10, 50, 32])) (some (d.ref "expected" [49, 10, 50])) =
      .ok true) ↔ SameLineEnds [49, 10, 50, 32] [49, 10, 50] :=
  outputsMatch_sameLines rfl rfl (by unfold SameLines; decide)

/-- A blank at the end of the first line. -/
theorem outputsMatch_inner_blank : SameLines [49, 32, 10, 50] [49, 10, 50] ∧
    outputsMatch (fun path => .content
          (if path = "actual" then [49, 32, 10, 50] else [49, 10, 50]))
        (some (.ofPath "actual")) (some (.ofPath "expected")) = .ok false := by
  refine ⟨by unfold SameLines; decide, ?_⟩
  decide +kernel

end

end AcojWorker
