import Mathlib.Tactic.Common

/-!
# UTF-8 with replacement characters

`bytes.decode("utf-8", errors="replace")` reads a byte sequence without ever failing: a
sequence of bytes that begins a character but does not complete it becomes one U+FFFD, and
so does a byte that can begin none. The decoder reads one byte at a time and keeps what it
has read of an incomplete character. Decoding what was encoded gives the text back, so
encoding is injective; and bytes that are read without a replacement are the encoding of what
is read.
-/

namespace Python

/-- `str.encode("utf-8")`. -/
def encodeUtf8 (text : List Char) : List UInt8 := text.flatMap String.utf8EncodeChar

namespace Utf8

def replacement : Char := Char.ofNat 0xFFFD

/-- The decoder between two bytes: at the start of a character, or inside one, with the
range of the next byte, the number of bytes after it, and the bits read so far. -/
inductive State where
  | start
  | inside (low high rest bits : Nat)

/-- The first byte of a character. -/
def lead (b : Nat) : List Char × State :=
  if b < 0x80 then ([Char.ofNat b], .start)
  else if b < 0xC2 then ([replacement], .start)
  else if b < 0xE0 then ([], .inside 0x80 0xBF 0 (b - 0xC0))
  else if b < 0xF0 then
    ([], .inside (if b = 0xE0 then 0xA0 else 0x80) (if b = 0xED then 0x9F else 0xBF) 1 (b - 0xE0))
  else if b < 0xF5 then
    ([], .inside (if b = 0xF0 then 0x90 else 0x80) (if b = 0xF4 then 0x8F else 0xBF) 2 (b - 0xF0))
  else ([replacement], .start)

def decode : State → List UInt8 → List Char
  | .start, [] => []
  | .inside .., [] => [replacement]
  | .start, b :: bs => (lead b.toNat).1 ++ decode (lead b.toNat).2 bs
  | .inside low high rest bits, b :: bs =>
      if low ≤ b.toNat ∧ b.toNat ≤ high then
        match rest with
        | 0 => Char.ofNat (bits * 64 + (b.toNat - 0x80)) :: decode .start bs
        | rest + 1 => decode (.inside 0x80 0xBF rest (bits * 64 + (b.toNat - 0x80))) bs
      -- The interrupting byte is read again, as the first byte of the next character.
      else replacement :: ((lead b.toNat).1 ++ decode (lead b.toNat).2 bs)

theorem decode_lead (b : UInt8) (bs : List UInt8) :
    decode .start (b :: bs) = (lead b.toNat).1 ++ decode (lead b.toNat).2 bs := rfl

theorem decode_last {low high bits : Nat} {b : UInt8} (hlow : low ≤ b.toNat)
    (hhigh : b.toNat ≤ high) (bs : List UInt8) :
    decode (.inside low high 0 bits) (b :: bs) =
      Char.ofNat (bits * 64 + (b.toNat - 0x80)) :: decode .start bs := by
  simp [decode, hlow, hhigh]

theorem decode_more {low high rest bits : Nat} {b : UInt8} (hlow : low ≤ b.toNat)
    (hhigh : b.toNat ≤ high) (bs : List UInt8) :
    decode (.inside low high (rest + 1) bits) (b :: bs) =
      decode (.inside 0x80 0xBF rest (bits * 64 + (b.toNat - 0x80))) bs := by
  simp [decode, hlow, hhigh]

theorem toNat_ofNat {n : Nat} (h : n < 256) : (UInt8.ofNat n).toNat = n := by
  simpa using h

theorem decode_encodeChar (c : Char) (bs : List UInt8) :
    decode .start (String.utf8EncodeChar c ++ bs) = c :: decode .start bs := by
  have valid : c.toNat < 0xD800 ∨ 0xDFFF < c.toNat ∧ c.toNat < 0x110000 := c.valid
  have value : c.val.toNat = c.toNat := rfl
  have back : Char.ofNat c.toNat = c := Char.ofNat_toNat c
  generalize c.toNat = v at *
  unfold String.utf8EncodeChar
  simp only [value]
  split
  · have h₁ := toNat_ofNat (n := v) (by omega)
    simp only [List.cons_append, List.nil_append]
    rw [decode_lead, h₁, lead, if_pos (by omega), back]
    rfl
  · have h₀ := toNat_ofNat (n := v % 64 + 0x80) (by omega)
    split
    · have h₁ := toNat_ofNat (n := v / 64 % 32 + 0xC0) (by omega)
      simp only [List.cons_append, List.nil_append]
      rw [decode_lead, h₁, lead, if_neg (by omega), if_neg (by omega), if_pos (by omega),
        List.nil_append, decode_last (by omega) (by omega), h₀,
        show (v / 64 % 32 + 0xC0 - 0xC0) * 64 + (v % 64 + 0x80 - 0x80) = v by omega, back]
    · have h₂ := toNat_ofNat (n := v / 64 % 64 + 0x80) (by omega)
      split
      · have h₁ := toNat_ofNat (n := v / 4096 % 16 + 0xE0) (by omega)
        simp only [List.cons_append, List.nil_append]
        rw [decode_lead, h₁, lead, if_neg (by omega), if_neg (by omega), if_neg (by omega),
          if_pos (by omega), List.nil_append,
          decode_more (by split <;> omega) (by split <;> omega),
          decode_last (by omega) (by omega), h₂, h₀,
          show ((v / 4096 % 16 + 0xE0 - 0xE0) * 64 + (v / 64 % 64 + 0x80 - 0x80)) * 64 +
            (v % 64 + 0x80 - 0x80) = v by omega, back]
      · have h₁ := toNat_ofNat (n := v / 262144 % 8 + 0xF0) (by omega)
        have h₃ := toNat_ofNat (n := v / 4096 % 64 + 0x80) (by omega)
        simp only [List.cons_append, List.nil_append]
        rw [decode_lead, h₁, lead, if_neg (by omega), if_neg (by omega), if_neg (by omega),
          if_neg (by omega), if_pos (by omega), List.nil_append,
          decode_more (by split <;> omega) (by split <;> omega),
          decode_more (by omega) (by omega), decode_last (by omega) (by omega), h₃, h₂, h₀,
          show (((v / 262144 % 8 + 0xF0 - 0xF0) * 64 + (v / 4096 % 64 + 0x80 - 0x80)) * 64 +
            (v / 64 % 64 + 0x80 - 0x80)) * 64 + (v % 64 + 0x80 - 0x80) = v by omega, back]

/-! ### Reading what was not damaged -/

/-- A character that is not completed is replaced. -/
theorem decode_inside {low high rest bits : Nat} {bs : List UInt8}
    (clean : replacement ∉ decode (.inside low high rest bits) bs) :
    ∃ b bs', bs = b :: bs' ∧ low ≤ b.toNat ∧ b.toNat ≤ high := by
  cases bs with
  | nil => exact absurd (List.mem_singleton_self _) clean
  | cons b bs =>
      by_cases range : low ≤ b.toNat ∧ b.toNat ≤ high
      · exact ⟨b, bs, rfl, range.1, range.2⟩
      · have interrupted : decode (.inside low high rest bits) (b :: bs) =
            replacement :: ((lead b.toNat).1 ++ decode (lead b.toNat).2 bs) := by
          cases rest <;> simp only [decode, if_neg range]
        rw [interrupted] at clean
        exact absurd (List.mem_cons_self ..) clean

theorem toNat_charOfNat {v : Nat} (valid : v < 0xD800 ∨ 0xDFFF < v ∧ v < 0x110000) :
    (Char.ofNat v).val.toNat = v := by
  rw [Char.ofNat, dif_pos (show v.isValidChar from valid)]
  rfl

theorem ofNat_eq {b : UInt8} {n : Nat} (h : n = b.toNat) : UInt8.ofNat n = b := by
  rw [h, UInt8.ofNat_toNat]

theorem encodeChar_one {b : UInt8} (range : b.toNat < 0x80) :
    String.utf8EncodeChar (Char.ofNat b.toNat) = [b] := by
  rw [String.utf8EncodeChar, toNat_charOfNat (by omega)]
  rw [if_pos (by omega), UInt8.ofNat_toNat]

theorem encodeChar_two {b₁ b₂ : UInt8} (low₁ : 0xC2 ≤ b₁.toNat) (high₁ : b₁.toNat < 0xE0)
    (low₂ : 0x80 ≤ b₂.toNat) (high₂ : b₂.toNat ≤ 0xBF) :
    String.utf8EncodeChar (Char.ofNat ((b₁.toNat - 0xC0) * 64 + (b₂.toNat - 0x80))) =
      [b₁, b₂] := by
  rw [String.utf8EncodeChar, toNat_charOfNat (by omega)]
  rw [if_neg (by omega), if_pos (by omega), ofNat_eq (b := b₁) (by omega),
    ofNat_eq (b := b₂) (by omega)]

theorem encodeChar_three {b₁ b₂ b₃ : UInt8} (low₁ : 0xE0 ≤ b₁.toNat) (high₁ : b₁.toNat < 0xF0)
    (low₂ : (if b₁.toNat = 0xE0 then 0xA0 else 0x80) ≤ b₂.toNat)
    (high₂ : b₂.toNat ≤ if b₁.toNat = 0xED then 0x9F else 0xBF)
    (low₃ : 0x80 ≤ b₃.toNat) (high₃ : b₃.toNat ≤ 0xBF) :
    String.utf8EncodeChar (Char.ofNat
        (((b₁.toNat - 0xE0) * 64 + (b₂.toNat - 0x80)) * 64 + (b₃.toNat - 0x80))) =
      [b₁, b₂, b₃] := by
  have valid : ((b₁.toNat - 0xE0) * 64 + (b₂.toNat - 0x80)) * 64 + (b₃.toNat - 0x80) < 0xD800 ∨
      0xDFFF < ((b₁.toNat - 0xE0) * 64 + (b₂.toNat - 0x80)) * 64 + (b₃.toNat - 0x80) ∧
      ((b₁.toNat - 0xE0) * 64 + (b₂.toNat - 0x80)) * 64 + (b₃.toNat - 0x80) < 0x110000 := by
    split at high₂ <;> split at low₂ <;> omega
  have long : 0x7ff < ((b₁.toNat - 0xE0) * 64 + (b₂.toNat - 0x80)) * 64 + (b₃.toNat - 0x80) := by
    split at low₂ <;> omega
  have second : 0x80 ≤ b₂.toNat ∧ b₂.toNat ≤ 0xBF := by
    split at high₂ <;> split at low₂ <;> omega
  rw [String.utf8EncodeChar, toNat_charOfNat valid]
  rw [if_neg (by omega), if_neg (by omega), if_pos (by omega), ofNat_eq (b := b₁) (by omega),
    ofNat_eq (b := b₂) (by omega), ofNat_eq (b := b₃) (by omega)]

theorem encodeChar_four {b₁ b₂ b₃ b₄ : UInt8} (low₁ : 0xF0 ≤ b₁.toNat) (high₁ : b₁.toNat < 0xF5)
    (low₂ : (if b₁.toNat = 0xF0 then 0x90 else 0x80) ≤ b₂.toNat)
    (high₂ : b₂.toNat ≤ if b₁.toNat = 0xF4 then 0x8F else 0xBF)
    (low₃ : 0x80 ≤ b₃.toNat) (high₃ : b₃.toNat ≤ 0xBF)
    (low₄ : 0x80 ≤ b₄.toNat) (high₄ : b₄.toNat ≤ 0xBF) :
    String.utf8EncodeChar (Char.ofNat ((((b₁.toNat - 0xF0) * 64 + (b₂.toNat - 0x80)) * 64 +
        (b₃.toNat - 0x80)) * 64 + (b₄.toNat - 0x80))) =
      [b₁, b₂, b₃, b₄] := by
  have range : 0xffff < (((b₁.toNat - 0xF0) * 64 + (b₂.toNat - 0x80)) * 64 +
        (b₃.toNat - 0x80)) * 64 + (b₄.toNat - 0x80) ∧
      (((b₁.toNat - 0xF0) * 64 + (b₂.toNat - 0x80)) * 64 + (b₃.toNat - 0x80)) * 64 +
        (b₄.toNat - 0x80) < 0x110000 := by
    split at high₂ <;> split at low₂ <;> omega
  have second : 0x80 ≤ b₂.toNat ∧ b₂.toNat ≤ 0xBF := by
    split at high₂ <;> split at low₂ <;> omega
  rw [String.utf8EncodeChar, toNat_charOfNat (by omega)]
  rw [if_neg (by omega), if_neg (by omega), if_neg (by omega), ofNat_eq (b := b₁) (by omega),
    ofNat_eq (b := b₂) (by omega), ofNat_eq (b := b₃) (by omega), ofNat_eq (b := b₄) (by omega)]

theorem encode_cons (c : Char) (cs : List Char) :
    encodeUtf8 (c :: cs) = String.utf8EncodeChar c ++ encodeUtf8 cs := rfl

theorem lead_two {b : Nat} (low : 0xC2 ≤ b) (high : b < 0xE0) :
    lead b = ([], .inside 0x80 0xBF 0 (b - 0xC0)) := by
  rw [lead, if_neg (by omega), if_neg (by omega), if_pos high]

theorem lead_three {b : Nat} (low : 0xE0 ≤ b) (high : b < 0xF0) : lead b =
    ([], .inside (if b = 0xE0 then 0xA0 else 0x80) (if b = 0xED then 0x9F else 0xBF) 1
      (b - 0xE0)) := by
  rw [lead, if_neg (by omega), if_neg (by omega), if_neg (by omega), if_pos high]

theorem lead_four {b : Nat} (low : 0xF0 ≤ b) (high : b < 0xF5) : lead b =
    ([], .inside (if b = 0xF0 then 0x90 else 0x80) (if b = 0xF4 then 0x8F else 0xBF) 2
      (b - 0xF0)) := by
  rw [lead, if_neg (by omega), if_neg (by omega), if_neg (by omega), if_neg (by omega), if_pos high]

theorem lead_none {b : Nat} (bad : 0x80 ≤ b ∧ b < 0xC2 ∨ 0xF5 ≤ b) :
    lead b = ([replacement], .start) := by
  obtain ⟨low, high⟩ | high := bad
  · rw [lead, if_neg (by omega), if_pos high]
  · rw [lead, if_neg (by omega), if_neg (by omega), if_neg (by omega), if_neg (by omega),
      if_neg (by omega)]

/-- Bytes that are decoded without a replacement are the encoding of their text. -/
theorem encode_decode (data : List UInt8) (clean : replacement ∉ decode .start data) :
    encodeUtf8 (decode .start data) = data := by
  induction h : data.length using Nat.strongRecOn generalizing data with
  | _ n ih =>
    cases data with
    | nil => rfl
    | cons b₁ bs =>
      -- What follows a whole character is shorter.
      have rest : ∀ (c : Char) (bs' : List UInt8), bs'.length ≤ bs.length →
          replacement ∉ c :: decode .start bs' →
          encodeUtf8 (c :: decode .start bs') = String.utf8EncodeChar c ++ bs' := by
        intro c bs' short clean
        rw [encode_cons, ih bs'.length (by rw [← h, List.length_cons]; omega) bs'
          (fun mem => clean (List.mem_cons_of_mem _ mem)) rfl]
      rw [decode_lead] at clean ⊢
      obtain one | two | three | four | bad : b₁.toNat < 0x80 ∨
          (0xC2 ≤ b₁.toNat ∧ b₁.toNat < 0xE0) ∨ (0xE0 ≤ b₁.toNat ∧ b₁.toNat < 0xF0) ∨
          (0xF0 ≤ b₁.toNat ∧ b₁.toNat < 0xF5) ∨
          (0x80 ≤ b₁.toNat ∧ b₁.toNat < 0xC2 ∨ 0xF5 ≤ b₁.toNat) := by omega
      · rw [lead, if_pos one] at clean ⊢
        exact (rest _ bs (Nat.le_refl _) clean).trans (congrArg (· ++ bs) (encodeChar_one one))
      · rw [lead_two two.1 two.2, List.nil_append] at clean ⊢
        obtain ⟨b₂, bs, rfl, low₂, high₂⟩ := decode_inside clean
        rw [decode_last low₂ high₂] at clean ⊢
        rw [rest _ bs (Nat.le_succ _) clean, encodeChar_two two.1 two.2 low₂ high₂]
        rfl
      · rw [lead_three three.1 three.2, List.nil_append] at clean ⊢
        obtain ⟨b₂, bs, rfl, low₂, high₂⟩ := decode_inside clean
        rw [decode_more low₂ high₂] at clean ⊢
        obtain ⟨b₃, bs, rfl, low₃, high₃⟩ := decode_inside clean
        rw [decode_last low₃ high₃] at clean ⊢
        rw [rest _ bs (by simp only [List.length_cons]; omega) clean,
          encodeChar_three three.1 three.2 low₂ high₂ low₃ high₃]
        rfl
      · rw [lead_four four.1 four.2, List.nil_append] at clean ⊢
        obtain ⟨b₂, bs, rfl, low₂, high₂⟩ := decode_inside clean
        rw [decode_more low₂ high₂] at clean ⊢
        obtain ⟨b₃, bs, rfl, low₃, high₃⟩ := decode_inside clean
        rw [decode_more low₃ high₃] at clean ⊢
        obtain ⟨b₄, bs, rfl, low₄, high₄⟩ := decode_inside clean
        rw [decode_last low₄ high₄] at clean ⊢
        rw [rest _ bs (by simp only [List.length_cons]; omega) clean,
          encodeChar_four four.1 four.2 low₂ high₂ low₃ high₃ low₄ high₄]
        rfl
      · rw [lead_none bad] at clean
        exact absurd (List.mem_cons_self ..) clean

end Utf8

/-- `data.decode("utf-8", errors="replace")`. -/
def decodeUtf8 (data : List UInt8) : List Char := Utf8.decode .start data

@[simp] theorem decodeUtf8_encodeUtf8 (text : List Char) : decodeUtf8 (encodeUtf8 text) = text := by
  induction text with
  | nil => rfl
  | cons c cs ih =>
      change Utf8.decode .start (String.utf8EncodeChar c ++ encodeUtf8 cs) = c :: cs
      rw [Utf8.decode_encodeChar]
      exact congrArg _ ih

theorem encodeUtf8_injective : Function.Injective encodeUtf8 :=
  Function.LeftInverse.injective decodeUtf8_encodeUtf8

/-- Only with a replacement can two contents be read as one text. -/
theorem decodeUtf8_injOn {data other : List UInt8} (clean : Utf8.replacement ∉ decodeUtf8 data)
    (same : decodeUtf8 data = decodeUtf8 other) : data = other := by
  have cleanOther : Utf8.replacement ∉ decodeUtf8 other := fun mem => clean (same ▸ mem)
  rw [← Utf8.encode_decode data clean]
  exact (congrArg encodeUtf8 same).trans (Utf8.encode_decode other cleanOther)

end Python
