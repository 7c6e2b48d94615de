import Mathlib.Algebra.BigOperators.Group.List.Basic
import Mathlib.Algebra.Order.Monoid.Defs

/-!
# Taking elements until they weigh enough

The elements of a list are taken from its front, one by one, as long as what has been taken
weighs less than some need. The result is a prefix, it meets the need or is everything, and
it is no longer than it has to be.
-/

namespace Quota

variable {α M : Type} [AddMonoid M] [LinearOrder M]

/-- The elements that are taken when something of weight `taken` is there already. -/
def takeUntil (need : M) (weight : α → M) : M → List α → List α
  | _, [] => []
  | taken, x :: xs =>
      if need ≤ taken then [] else x :: takeUntil need weight (taken + weight x) xs

variable {need taken : M} {weight : α → M} {xs : List α}

theorem takeUntil_of_le (enough : need ≤ taken) : takeUntil need weight taken xs = [] := by
  cases xs with
  | nil => rfl
  | cons x xs => exact if_pos enough

theorem takeUntil_cons {x : α} (lacking : ¬ need ≤ taken) :
    takeUntil need weight taken (x :: xs) =
      x :: takeUntil need weight (taken + weight x) xs :=
  if_neg lacking

theorem takeUntil_prefix : takeUntil need weight taken xs <+: xs := by
  induction xs generalizing taken with
  | nil => exact List.prefix_rfl
  | cons x xs ih =>
      by_cases enough : need ≤ taken
      · rw [takeUntil_of_le enough]
        exact List.nil_prefix
      · rw [takeUntil_cons enough, List.cons_prefix_cons]
        exact ⟨rfl, ih⟩

/-- Nothing is left, or the need is met. -/
theorem takeUntil_enough :
    need ≤ taken + ((takeUntil need weight taken xs).map weight).sum ∨
      takeUntil need weight taken xs = xs := by
  induction xs generalizing taken with
  | nil => exact .inr rfl
  | cons x xs ih =>
      by_cases enough : need ≤ taken
      · left
        rw [takeUntil_of_le enough, List.map_nil, List.sum_nil, add_zero]
        exact enough
      · rw [takeUntil_cons enough, List.map_cons, List.sum_cons, ← add_assoc, List.cons.injEq]
        exact ih.imp id fun all => ⟨rfl, all⟩

/-- Without its last element the prefix does not meet the need. -/
theorem takeUntil_minimal (some : takeUntil need weight taken xs ≠ []) :
    taken + ((takeUntil need weight taken xs).dropLast.map weight).sum < need := by
  induction xs generalizing taken with
  | nil => exact absurd rfl some
  | cons x xs ih =>
      by_cases enough : need ≤ taken
      · exact absurd (takeUntil_of_le enough) some
      · rw [takeUntil_cons enough]
        by_cases last : takeUntil need weight (taken + weight x) xs = []
        · rw [last, List.dropLast_singleton, List.map_nil, List.sum_nil, add_zero]
          exact not_le.mp enough
        · rw [List.dropLast_cons_of_ne_nil last, List.map_cons, List.sum_cons, ← add_assoc]
          exact ih last

end Quota
