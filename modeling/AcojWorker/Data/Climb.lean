import Mathlib.Data.List.Infix
import Mathlib.Data.List.Lattice
import Mathlib.Order.Basic

/-!
# The climb of a sequence of counts

The climb of a sequence adds up its rises from one element to the next and forgets its falls.
It never stays below the largest element, and it is that element at every place exactly if the
sequence, once it has fallen, does not rise any more.
-/

namespace Climb

/-- The sum of the rises of a sequence that starts at `last`. -/
def climb (last : ℕ) : List ℕ → ℕ
  | [] => 0
  | x :: xs => (x - last) + climb x xs

/-- The largest of the elements and `start`. -/
def largest (start : ℕ) (xs : List ℕ) : ℕ := xs.foldr max start

/-- The sequence rises to a peak and does not rise behind it. -/
def Peaked (xs : List ℕ) : Prop :=
  ∃ up down, xs = up ++ down ∧ up.Pairwise (· ≤ ·) ∧ down.Pairwise (· ≥ ·)

@[simp] theorem climb_nil (last : ℕ) : climb last [] = 0 := rfl

@[simp] theorem climb_cons (last x : ℕ) (xs : List ℕ) :
    climb last (x :: xs) = (x - last) + climb x xs := rfl

@[simp] theorem largest_nil (start : ℕ) : largest start [] = start := rfl

@[simp] theorem largest_cons (start x : ℕ) (xs : List ℕ) :
    largest start (x :: xs) = max x (largest start xs) := rfl

theorem le_largest (start : ℕ) (xs : List ℕ) : start ≤ largest start xs := by
  induction xs with
  | nil => exact Nat.le_refl _
  | cons x xs ih => exact ih.trans (Nat.le_max_right ..)

/-- A rise at the start moves the start. -/
theorem max_largest {start x : ℕ} (rises : start ≤ x) (xs : List ℕ) :
    max x (largest start xs) = largest x xs := by
  induction xs with
  | nil => exact Nat.max_eq_left rises
  | cons y ys ih =>
      rw [largest_cons, largest_cons, ← ih]
      omega

theorem climb_falling {last : ℕ} {xs : List ℕ} (falling : (last :: xs).Pairwise (· ≥ ·)) :
    climb last xs = 0 := by
  induction xs generalizing last with
  | nil => rfl
  | cons x xs ih =>
      obtain ⟨first, rest⟩ := List.pairwise_cons.mp falling
      have below : x ≤ last := first x (List.mem_cons_self ..)
      rw [climb_cons, ih rest]
      omega

theorem peaked_cons_of_le {start x : ℕ} {xs : List ℕ} (rises : start ≤ x) :
    Peaked (start :: x :: xs) ↔ Peaked (x :: xs) := by
  constructor
  · rintro ⟨up, down, split, rising, falling⟩
    cases up with
    | nil =>
        obtain rfl : down = start :: x :: xs := split.symm
        exact ⟨[], x :: xs, rfl, .nil, (List.pairwise_cons.mp falling).2⟩
    | cons _ up =>
        obtain ⟨rfl, rest⟩ := List.cons.inj split
        exact ⟨up, down, rest, (List.pairwise_cons.mp rising).2, falling⟩
  · rintro ⟨up, down, split, rising, falling⟩
    cases up with
    | nil =>
        obtain rfl : down = x :: xs := split.symm
        exact ⟨[start], x :: xs, rfl, List.pairwise_singleton _ _, falling⟩
    | cons y up =>
        obtain ⟨rfl, rest⟩ := List.cons.inj split
        refine ⟨start :: x :: up, down, congrArg (start :: x :: ·) rest, ?_, falling⟩
        refine List.pairwise_cons.mpr ⟨fun z mem => ?_, rising⟩
        obtain rfl | mem := List.mem_cons.mp mem
        · exact rises
        · exact rises.trans ((List.pairwise_cons.mp rising).1 z mem)

theorem peaked_cons_of_gt {start x : ℕ} {xs : List ℕ} (falls : x < start) :
    Peaked (start :: x :: xs) ↔ (x :: xs).Pairwise (· ≥ ·) := by
  constructor
  · rintro ⟨up, down, split, rising, falling⟩
    match up, rising with
    | [], _ =>
        obtain rfl : down = start :: x :: xs := split.symm
        exact (List.pairwise_cons.mp falling).2
    | [_], _ =>
        obtain ⟨-, rfl⟩ := List.cons.inj split
        exact falling
    | y :: z :: _, rising =>
        obtain ⟨first, rest⟩ := List.cons.inj split
        obtain ⟨second, -⟩ := List.cons.inj rest
        have impossible : y ≤ z := (List.pairwise_cons.mp rising).1 z (List.mem_cons_self ..)
        omega
  · intro falling
    exact ⟨[start], x :: xs, rfl, List.pairwise_singleton _ _, falling⟩

/-- After a fall the climb stays below the top only if nothing rises any more. -/
theorem climb_le_top_iff {top x : ℕ} {xs : List ℕ} (below : x < top) :
    (∀ part, part <+: xs → top + climb x part ≤ largest top part) ↔
      (x :: xs).Pairwise (· ≥ ·) := by
  induction xs generalizing x with
  | nil =>
      refine iff_of_true (fun part sub => ?_) (List.pairwise_singleton _ _)
      rw [List.prefix_nil.mp sub]
      exact Nat.le_refl _
  | cons y ys ih =>
      constructor
      · intro bounded
        have first : top + (y - x + 0) ≤ max y top :=
          bounded [y] ⟨ys, rfl⟩
        have falls : y ≤ x := by omega
        have rest : (y :: ys).Pairwise (· ≥ ·) := by
          apply (ih (falls.trans_lt below)).mp
          intro part sub
          have step : top + (y - x + climb y part) ≤ max y (largest top part) :=
            bounded (y :: part) (List.cons_prefix_cons.mpr ⟨rfl, sub⟩)
          have start := le_largest top part
          omega
        refine List.pairwise_cons.mpr ⟨fun z mem => ?_, rest⟩
        obtain rfl | mem := List.mem_cons.mp mem
        · exact falls
        · exact ((List.pairwise_cons.mp rest).1 z mem).trans falls
      · intro falling part sub
        have still : climb x part = 0 :=
          climb_falling (falling.sublist (sub.sublist.cons_cons x))
        rw [still]
        exact le_largest top part

/-- The climb stays below the largest element at every place exactly if there is one peak. -/
theorem climb_le_largest_iff (start : ℕ) (xs : List ℕ) :
    (∀ part, part <+: xs → start + climb start part ≤ largest start part) ↔
      Peaked (start :: xs) := by
  induction xs generalizing start with
  | nil =>
      refine iff_of_true (fun part sub => ?_) ⟨[start], [], rfl, List.pairwise_singleton _ _, .nil⟩
      rw [List.prefix_nil.mp sub]
      exact Nat.le_refl _
  | cons x xs ih =>
      have parts : (∀ part, part <+: x :: xs → start + climb start part ≤ largest start part) ↔
          ∀ part, part <+: xs → start + (x - start + climb x part) ≤ max x (largest start part) := by
        constructor
        · intro bounded part sub
          exact bounded (x :: part) (List.cons_prefix_cons.mpr ⟨rfl, sub⟩)
        · intro bounded part sub
          cases part with
          | nil => exact Nat.le_refl _
          | cons y part =>
              obtain ⟨rfl, rest⟩ := List.cons_prefix_cons.mp sub
              exact bounded part rest
      rw [parts]
      obtain rises | falls := Nat.lt_or_ge x start |>.symm
      · rw [peaked_cons_of_le rises, ← ih x]
        refine forall_congr' fun part => imp_congr_right fun _ => ?_
        rw [max_largest rises]
        omega
      · rw [peaked_cons_of_gt falls, ← climb_le_top_iff falls]
        refine forall_congr' fun part => imp_congr_right fun _ => ?_
        have top := le_largest start part
        omega

theorem largest_le_max (start x : ℕ) (xs : List ℕ) :
    largest start xs ≤ max start (largest x xs) := by
  induction xs with
  | nil => exact Nat.le_max_left ..
  | cons y ys ih =>
      rw [largest_cons, largest_cons]
      omega

theorem largest_le_climb (start : ℕ) (xs : List ℕ) :
    largest start xs ≤ start + climb start xs := by
  induction xs generalizing start with
  | nil => exact Nat.le_refl _
  | cons x xs ih =>
      have rest := ih x
      have start_or := largest_le_max start x xs
      rw [largest_cons, climb_cons]
      omega

theorem peaked_zero_cons (xs : List ℕ) : Peaked (0 :: xs) ↔ Peaked xs := by
  cases xs with
  | nil =>
      exact iff_of_true ⟨[0], [], rfl, List.pairwise_singleton _ _, .nil⟩ ⟨[], [], rfl, .nil, .nil⟩
  | cons x xs => exact peaked_cons_of_le (Nat.zero_le x)

end Climb
