import Mathlib.Data.List.Basic

/-!
# Numbers in names

A name that is put together from texts and numbers can be taken apart again where the mark
between the parts occurs in none of the later ones; a decimal numeral holds digits only.
-/

namespace Python

theorem toString_toList (n : Nat) : (toString n).toList = Nat.toDigits 10 n := by
  rw [Nat.toString_eq_ofList_toDigits, String.toList_ofList]

theorem toDigits_injective {n m : Nat} (same : Nat.toDigits 10 n = Nat.toDigits 10 m) : n = m := by
  rw [← Nat.ofDigitChars_ten_toDigits (n := n), same, Nat.ofDigitChars_ten_toDigits]

theorem notMem_toDigits {c : Char} (other : c.isDigit = false) (n : Nat) :
    c ∉ Nat.toDigits 10 n := by
  intro mem
  have digit := Nat.isDigit_of_mem_toDigits (by decide) (by decide) mem
  rw [other] at digit
  cases digit

/-- What comes before and after the last mark. -/
theorem lastMark_inj {α : Type} {mark : α} {a b p q : List α} (hp : mark ∉ p) (hq : mark ∉ q)
    (same : a ++ mark :: p = b ++ mark :: q) : a = b ∧ p = q := by
  obtain ⟨c, rfl, hc⟩ | ⟨c, rfl, hc⟩ := List.append_eq_append_iff.mp same
  · cases c with
    | nil => exact ⟨(List.append_nil a).symm, (List.cons.inj hc).2⟩
    | cons x c => exact absurd (by rw [(List.cons.inj hc).2]; simp) hp
  · cases c with
    | nil => exact ⟨List.append_nil b, (List.cons.inj hc).2.symm⟩
    | cons x c => exact absurd (by rw [(List.cons.inj hc).2]; simp) hq

end Python
