import Mathlib.Data.List.DropRight
import Mathlib.Data.List.Induction

/-!
# Text

The parts of `str` that output comparison relies on: which characters are blank, stripping
them from both ends, and the newline translation of files opened in text mode. A text is
the list of its characters. Translation never turns a blank into something else, so it
commutes with stripping.
-/

namespace Python

/-- `c.isspace()`. -/
def isSpace (c : Char) : Bool :=
  let n := c.toNat
  (9 ≤ n && n ≤ 13) || (28 ≤ n && n ≤ 32) || n == 0x85 || n == 0xA0 || n == 0x1680 ||
    (0x2000 ≤ n && n ≤ 0x200A) || n == 0x2028 || n == 0x2029 || n == 0x202F || n == 0x205F ||
    n == 0x3000

/-- `text.strip()`. -/
def strip (text : List Char) : List Char := (text.dropWhile isSpace).rdropWhile isSpace

/-- Universal newlines: `\r\n` and a lone `\r` are read as `\n`. -/
def translateNewlines : List Char → List Char
  | [] => []
  | '\r' :: '\n' :: cs => '\n' :: translateNewlines cs
  | '\r' :: cs => '\n' :: translateNewlines cs
  | c :: cs => c :: translateNewlines cs

theorem translateNewlines_cons_of_ne {c : Char} (hc : c ≠ '\r') (cs : List Char) :
    translateNewlines (c :: cs) = c :: translateNewlines cs := by
  rw [translateNewlines] <;> simp_all

theorem translateNewlines_cr {cs : List Char} (h : ∀ ds, cs ≠ '\n' :: ds) :
    translateNewlines ('\r' :: cs) = '\n' :: translateNewlines cs :=
  translateNewlines.eq_3 cs h

theorem not_mem_translateNewlines (cs : List Char) : '\r' ∉ translateNewlines cs := by
  fun_induction translateNewlines cs with
  | case1 => exact List.not_mem_nil
  | case2 cs ih => simpa using ih
  | case3 cs _ ih => simpa using ih
  | case4 c cs _ hc ih =>
      rw [List.mem_cons, not_or]
      exact ⟨fun h => hc h.symm, ih⟩

/-- A text is read back unchanged exactly when it has no carriage return. -/
theorem translateNewlines_eq_self {cs : List Char} :
    translateNewlines cs = cs ↔ '\r' ∉ cs := by
  constructor
  · intro h hr
    exact not_mem_translateNewlines cs (h.symm ▸ hr)
  · intro h
    induction cs with
    | nil => rfl
    | cons c cs ih =>
        rw [List.mem_cons, not_or] at h
        rw [translateNewlines_cons_of_ne (Ne.symm h.1), ih h.2]

theorem translateNewlines_append_ne {c : Char} (hr : c ≠ '\r') (hn : c ≠ '\n')
    (cs : List Char) : translateNewlines (cs ++ [c]) = translateNewlines cs ++ [c] := by
  fun_induction translateNewlines cs with
  | case1 => rw [List.nil_append, translateNewlines_cons_of_ne hr]; rfl
  | case2 cs ih => simpa [translateNewlines] using ih
  | case3 cs hcs ih =>
      have single : ∀ ds, cs ++ [c] ≠ '\n' :: ds := by
        intro ds h
        cases cs with
        | nil => exact hn (List.cons.inj h).1
        | cons d cs => exact hcs cs (by rw [(List.cons.inj h).1])
      rw [List.cons_append, translateNewlines_cr single, ih]
      rfl
  | case4 d cs _ hd ih =>
      rw [List.cons_append, translateNewlines_cons_of_ne hd, ih]
      rfl

/-- A blank at the end is translated to a blank, or merged into the one before it. -/
theorem translateNewlines_append_space {c : Char} (hc : isSpace c = true) (cs : List Char) :
    translateNewlines (cs ++ [c]) = translateNewlines cs ∨
      ∃ d, isSpace d = true ∧ translateNewlines (cs ++ [c]) = translateNewlines cs ++ [d] := by
  fun_induction translateNewlines cs with
  | case1 =>
      by_cases hr : c = '\r'
      · exact .inr ⟨'\n', rfl, by rw [hr]; rfl⟩
      · exact .inr ⟨c, hc, by rw [List.nil_append, translateNewlines_cons_of_ne hr]; rfl⟩
  | case2 cs ih => simpa [translateNewlines] using ih
  | case3 cs hcs ih =>
      cases cs with
      | nil =>
          by_cases hn : c = '\n'
          · exact .inl (by rw [hn]; rfl)
          · by_cases hr : c = '\r'
            · exact .inr ⟨'\n', rfl, by rw [hr]; rfl⟩
            · exact .inr ⟨c, hc, by
                rw [List.singleton_append, translateNewlines_cr (by simp [hn]),
                  translateNewlines_cons_of_ne hr]
                rfl⟩
      | cons d cs =>
          have single : ∀ ds, (d :: cs) ++ [c] ≠ '\n' :: ds :=
            fun ds h => hcs cs (by rw [(List.cons.inj h).1])
          rw [List.cons_append, translateNewlines_cr single]
          simpa using ih
  | case4 d cs _ hd ih =>
      rw [List.cons_append, translateNewlines_cons_of_ne hd]
      simpa using ih

theorem dropWhile_translateNewlines (cs : List Char) :
    (translateNewlines cs).dropWhile isSpace = translateNewlines (cs.dropWhile isSpace) := by
  fun_induction translateNewlines cs with
  | case1 => rfl
  | case2 cs ih => exact ih
  | case3 cs _ ih => exact ih
  | case4 c cs _ hc ih =>
      by_cases hs : isSpace c = true
      · simpa [hs] using ih
      · rw [List.dropWhile_cons, if_neg hs, List.dropWhile_cons, if_neg hs,
          translateNewlines_cons_of_ne hc]

theorem rdropWhile_translateNewlines (cs : List Char) :
    (translateNewlines cs).rdropWhile isSpace = translateNewlines (cs.rdropWhile isSpace) := by
  induction cs using List.reverseRecOn with
  | nil => rfl
  | append_singleton cs c ih =>
      by_cases hs : isSpace c = true
      · rw [List.rdropWhile_concat_pos _ _ _ hs, ← ih]
        obtain same | ⟨d, hd, longer⟩ := translateNewlines_append_space hs cs
        · rw [same]
        · rw [longer, List.rdropWhile_concat_pos _ _ _ hd]
      · have hr : c ≠ '\r' := fun h => hs (by rw [h]; rfl)
        have hn : c ≠ '\n' := fun h => hs (by rw [h]; rfl)
        rw [List.rdropWhile_concat_neg _ _ _ hs, translateNewlines_append_ne hr hn,
          List.rdropWhile_concat_neg _ _ _ hs]

theorem strip_translateNewlines (cs : List Char) :
    strip (translateNewlines cs) = translateNewlines (strip cs) := by
  rw [strip, dropWhile_translateNewlines, rdropWhile_translateNewlines]
  rfl

end Python
