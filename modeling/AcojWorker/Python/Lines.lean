import AcojWorker.Python.Text

/-!
# Lines and their ends

What is left of a text when the blanks at the ends of its lines and the empty lines at its end
are removed. Stripping a text removes something else: the blanks at its two ends. Two texts with
the same lines in this sense are equal when stripped exactly if the blanks at the ends of their
inner lines are the same.
-/

namespace Python

/-- `text.split("\n")`. -/
def lines (text : List Char) : List (List Char) := text.splitOn '\n'

/-- `line.rstrip()`. -/
def rstrip (line : List Char) : List Char := line.rdropWhile isSpace

/-- The lines without trailing blanks, and without empty lines at the end. -/
def bareLines (text : List Char) : List (List Char) :=
  ((lines text).map rstrip).rdropWhile List.isEmpty

/-- The blanks at the ends of the lines. -/
def lineEnds (text : List Char) : List (List Char) :=
  (lines text).map fun line => line.rtakeWhile isSpace

/-! ### Lists and their ends -/

theorem rdropWhile_cons {α : Type*} (p : α → Bool) (x : α) (xs : List α) :
    (x :: xs).rdropWhile p =
      if xs.rdropWhile p = [] ∧ p x = true then [] else x :: xs.rdropWhile p := by
  rw [List.rdropWhile, List.reverse_cons, List.dropWhile_append, List.rdropWhile]
  cases h : xs.reverse.dropWhile p with
  | nil =>
      cases hx : p x with
      | true => simp [hx]
      | false => simp [hx]
  | cons y ys => simp

/-- A list of texts is known from the texts without their ends, and from the ends. -/
theorem eq_of_parts {p : Char → Bool} {xs ys : List (List Char)}
    (fronts : xs.map (List.rdropWhile p) = ys.map (List.rdropWhile p))
    (ends : xs.map (List.rtakeWhile p) = ys.map (List.rtakeWhile p)) : xs = ys := by
  induction xs generalizing ys with
  | nil => exact (List.map_eq_nil_iff.mp fronts.symm).symm
  | cons x xs ih =>
      cases ys with
      | nil => exact nomatch fronts
      | cons y ys =>
          obtain ⟨front, fronts⟩ := List.cons.inj fronts
          obtain ⟨end_, ends⟩ := List.cons.inj ends
          have same : x = y := by
            rw [← List.rdropWhile_append_rtakeWhile (p := p) (l := x), front, end_,
              List.rdropWhile_append_rtakeWhile]
          rw [same, ih fronts ends]

/-! ### Lines of longer texts -/

theorem lines_injective : Function.Injective lines := by
  intro text other same
  have whole (text : List Char) : List.intercalate ['\n'] (lines text) = text :=
    List.intercalate_splitOn '\n'
  rw [← whole text, same, whole other]

theorem lines_cons_newline (cs : List Char) : lines ('\n' :: cs) = [] :: lines cs := by
  rw [lines, List.splitOn_cons_eq_if_modifyHead]
  rfl

theorem lines_cons {c : Char} (inside : c ≠ '\n') (cs : List Char) :
    ∃ line rest, lines cs = line :: rest ∧ lines (c :: cs) = (c :: line) :: rest := by
  obtain ⟨line, rest, split⟩ := List.exists_cons_of_ne_nil (List.splitOn_ne_nil '\n' cs)
  refine ⟨line, rest, split, ?_⟩
  rw [lines, List.splitOn_cons_eq_if_modifyHead, if_neg (by simpa using inside), split]
  rfl

theorem lines_concat_newline (cs : List Char) : lines (cs ++ ['\n']) = lines cs ++ [[]] := by
  rw [lines, List.splitOn_append_cons_self]
  rfl

theorem lines_concat {c : Char} (inside : c ≠ '\n') (cs : List Char) :
    ∃ rest line, lines cs = rest ++ [line] ∧ lines (cs ++ [c]) = rest ++ [line ++ [c]] := by
  induction cs with
  | nil =>
      refine ⟨[], [], rfl, ?_⟩
      rw [lines, List.nil_append, List.splitOn_cons_eq_if_modifyHead, if_neg (by simpa using inside)]
      rfl
  | cons d cs ih =>
      obtain ⟨rest, line, before, after⟩ := ih
      by_cases newline : d = '\n'
      · refine ⟨[] :: rest, line, ?_, ?_⟩
        · rw [newline, lines_cons_newline, before]
          rfl
        · rw [newline, List.cons_append, lines_cons_newline, after]
          rfl
      · obtain ⟨first, others, split, longer⟩ := lines_cons newline cs
        obtain ⟨first', others', split', longer'⟩ := lines_cons newline (cs ++ [c])
        rw [List.cons_append, longer, longer']
        rw [before] at split
        rw [after] at split'
        cases rest with
        | nil =>
            obtain ⟨rfl, rfl⟩ := List.cons.inj split
            obtain ⟨rfl, rfl⟩ := List.cons.inj split'
            exact ⟨[], d :: line, rfl, rfl⟩
        | cons x rest =>
            obtain ⟨rfl, rfl⟩ := List.cons.inj split
            obtain ⟨rfl, rfl⟩ := List.cons.inj split'
            exact ⟨(d :: x) :: rest, line, rfl, rfl⟩

/-! ### Stripping a text -/

/-- A blank at the end of a text is at the end of its last line. -/
theorem bareLines_concat_space {c : Char} (blank : isSpace c = true) (cs : List Char) :
    bareLines (cs ++ [c]) = bareLines cs := by
  by_cases newline : c = '\n'
  · rw [bareLines, newline, lines_concat_newline, List.map_append]
    exact List.rdropWhile_concat_pos _ _ _ rfl
  · obtain ⟨rest, line, before, after⟩ := lines_concat newline cs
    rw [bareLines, bareLines, before, after, List.map_append, List.map_append, List.map_singleton,
      List.map_singleton, rstrip, List.rdropWhile_concat_pos _ _ _ blank]
    rfl

theorem bareLines_rstrip (text : List Char) : bareLines (rstrip text) = bareLines text := by
  induction text using List.reverseRecOn with
  | nil => rfl
  | append_singleton cs c ih =>
      by_cases blank : isSpace c = true
      · rw [rstrip, List.rdropWhile_concat_pos _ _ _ blank, bareLines_concat_space blank]
        exact ih
      · rw [rstrip, List.rdropWhile_concat_neg _ _ _ blank]

/-- Empty lines at the start are dropped, and the blanks before the first visible character. -/
def dropBlankStart : List (List Char) → List (List Char)
  | [] => []
  | line :: rest =>
      if line.dropWhile isSpace = [] then dropBlankStart rest else line.dropWhile isSpace :: rest

theorem bareLines_cons_newline (cs : List Char) :
    bareLines ('\n' :: cs) = if bareLines cs = [] then [] else [] :: bareLines cs := by
  rw [bareLines, lines_cons_newline, List.map_cons, rdropWhile_cons]
  simp only [rstrip, List.rdropWhile_nil, List.isEmpty_nil, and_true]
  rfl

theorem rstrip_cons (c : Char) (line : List Char) :
    rstrip (c :: line) = if rstrip line = [] ∧ isSpace c = true then [] else c :: rstrip line :=
  rdropWhile_cons isSpace c line

/-- The lines of a text behind one more character of its first line. -/
theorem bareLines_cons {c : Char} (inside : c ≠ '\n') (cs : List Char) :
    (isSpace c = true ∧ bareLines (c :: cs) = bareLines cs) ∨
      ∃ line rest, bareLines (c :: cs) = (c :: line) :: rest ∧
        (isSpace c = true → bareLines cs = line :: rest) := by
  obtain ⟨line, rest, before, after⟩ := lines_cons inside cs
  rw [bareLines, bareLines, before, after, List.map_cons, List.map_cons, rstrip_cons]
  split
  · next bare =>
    rw [bare.1]
    exact .inl ⟨bare.2, rfl⟩
  · next filled =>
    refine .inr ⟨rstrip line, (rest.map rstrip).rdropWhile List.isEmpty, ?_, fun blank => ?_⟩
    · rw [rdropWhile_cons, if_neg (by simp)]
    · have nonempty : rstrip line ≠ [] := fun h => filled ⟨h, blank⟩
      rw [rdropWhile_cons, if_neg (by simp [nonempty])]

theorem bareLines_lstrip (text : List Char) :
    bareLines (text.dropWhile isSpace) = dropBlankStart (bareLines text) := by
  induction text with
  | nil => rfl
  | cons c cs ih =>
      by_cases newline : c = '\n'
      · rw [newline, List.dropWhile_cons_of_pos (by decide), bareLines_cons_newline, ih]
        split
        · next none => rw [none]
        · rfl
      · obtain ⟨blank, same⟩ | ⟨line, rest, longer, shorter⟩ := bareLines_cons newline cs
        · rw [List.dropWhile_cons_of_pos blank, ih, same]
        · by_cases blank : isSpace c = true
          · rw [List.dropWhile_cons_of_pos blank, ih, longer, shorter blank, dropBlankStart,
              dropBlankStart, List.dropWhile_cons_of_pos blank]
          · rw [List.dropWhile_cons_of_neg blank, longer, dropBlankStart,
              List.dropWhile_cons_of_neg blank, if_neg (List.cons_ne_nil _ _)]

theorem bareLines_strip (text : List Char) :
    bareLines (strip text) = dropBlankStart (bareLines text) :=
  (bareLines_rstrip _).trans (bareLines_lstrip text)

/-- A text that is stripped ends in a visible character, so that no line of it is dropped. -/
theorem strip_lines (text : List Char) : strip text = [] ∨
    bareLines (strip text) = (lines (strip text)).map rstrip ∧ bareLines (strip text) ≠ [] := by
  obtain none | ⟨cs, c, ends⟩ := List.eq_nil_or_concat' (strip text)
  · exact .inl none
  · right
    have visible : isSpace c = false := by
      have filled : strip text ≠ [] := by simp [ends]
      have kept : ¬ isSpace ((strip text).getLast filled) = true :=
        List.rdropWhile_last_not _ _ filled
      simp only [ends, List.getLast_concat] at kept
      exact Bool.not_eq_true _ ▸ kept
    have inside : c ≠ '\n' := by
      rintro rfl
      exact absurd visible (by decide)
    obtain ⟨rest, line, -, after⟩ := lines_concat inside cs
    have whole : bareLines (strip text) = (lines (strip text)).map rstrip := by
      rw [bareLines, ends, after, List.map_append, List.map_singleton, rstrip,
        List.rdropWhile_concat_neg _ _ _ (by simp [visible])]
    refine ⟨whole, ?_⟩
    rw [whole, ends, after, List.map_append]
    exact List.append_ne_nil_of_right_ne_nil _ (List.cons_ne_nil _ _)

/-- Stripped texts with the same bare lines differ in the blanks at the ends of lines only. -/
theorem strip_eq_iff {text other : List Char} (same : bareLines text = bareLines other) :
    strip text = strip other ↔ lineEnds (strip text) = lineEnds (strip other) := by
  have stripped : bareLines (strip text) = bareLines (strip other) := by
    rw [bareLines_strip, bareLines_strip, same]
  refine ⟨congrArg lineEnds, fun ends => ?_⟩
  obtain none | ⟨whole, filled⟩ := strip_lines text
  · obtain none' | ⟨-, filled'⟩ := strip_lines other
    · rw [none, none']
    · rw [none] at stripped
      exact absurd stripped.symm filled'
  · obtain none' | ⟨whole', -⟩ := strip_lines other
    · rw [none'] at stripped
      exact absurd stripped filled
    · apply lines_injective
      exact eq_of_parts (whole.symm.trans (stripped.trans whole')) ends

end Python
