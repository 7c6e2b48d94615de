import AcojWorker.Judge.OutputComparison

/-!
# Outputs that are no text

Two files are compared after decoding, and bytes that are no UTF-8 are replaced. Different
contents are told apart unless they are damaged in the same places.
-/

namespace AcojWorker

open Python

/-- The content neither starts nor ends with a blank. -/
def Unpadded (data : Bytes) : Prop := strip (decodeUtf8 data) = decodeUtf8 data

instance (data : Bytes) : Decidable (Unpadded data) :=
  inferInstanceAs (Decidable (strip (decodeUtf8 data) = decodeUtf8 data))

/-- The bytes of some text. -/
def IsUtf8 (data : Bytes) : Prop := ∃ text, data = encodeUtf8 text

section

variable {files : Files} {name other : String} {data expectedData : Bytes}

/-- Different contents match only if both are read as one text with replacements; two contents
in UTF-8 never do. -/
theorem outputsMatch_different (actualStored : files name = .content data)
    (expectedStored : files other = .content expectedData) (actualUnpadded : Unpadded data)
    (expectedUnpadded : Unpadded expectedData) (different : data ≠ expectedData) :
    outputsMatch files (some (.ofPath name)) (some (.ofPath other)) =
        .ok (decide (decodeUtf8 data = decodeUtf8 expectedData)) ∧
      (decodeUtf8 data = decodeUtf8 expectedData →
        Utf8.replacement ∈ decodeUtf8 data ∧ ¬ (IsUtf8 data ∧ IsUtf8 expectedData)) := by
  constructor
  · have compared := outputsMatch_ref actualStored expectedStored .path .path
    rw [if_pos ⟨rfl, rfl⟩, strippedText, strippedText, actualUnpadded, expectedUnpadded] at compared
    exact compared
  · intro same
    constructor
    · by_contra clean
      exact different (decodeUtf8_injOn clean same)
    · rintro ⟨⟨text, rfl⟩, ⟨expectedText, rfl⟩⟩
      rw [decodeUtf8_encodeUtf8, decodeUtf8_encodeUtf8] at same
      exact different (congrArg encodeUtf8 same)

/-- Two digits. -/
theorem outputsMatch_digits :
    outputsMatch (fun path => .content (if path = "actual" then [51] else [52]))
        (some (.ofPath "actual")) (some (.ofPath "expected")) =
      .ok (decide (decodeUtf8 [51] = decodeUtf8 [52])) ∧
    (decodeUtf8 [51] = decodeUtf8 [52] →
      Utf8.replacement ∈ decodeUtf8 [51] ∧ ¬ (IsUtf8 [51] ∧ IsUtf8 [52])) :=
  outputsMatch_different rfl rfl (by decide) (by decide) (by decide)

/-- Two bytes that can stand nowhere in UTF-8 are both replaced. -/
theorem outputsMatch_replaced : Unpadded [0xFF] ∧ Unpadded [0xFE] ∧
    outputsMatch (fun path => .content (if path = "actual" then [0xFF] else [0xFE]))
      (some (.ofPath "actual")) (some (.ofPath "expected")) = .ok true := by
  refine ⟨by decide, by decide, ?_⟩
  decide +kernel

end

end AcojWorker
