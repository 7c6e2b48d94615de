import Mathlib.Data.List.Basic
import Mathlib.Logic.Relation

/-!
# Lists in the order of their dependencies

A list is in order when everything an element depends on stands before it. Such a list is
built from the left, one element at a time, and no element of it depends on itself, not even
through others.
-/

namespace DependencyOrder

variable {α : Type*} {r : α → α → Prop} {xs : List α} {x : α}

/-- Whatever an element depends on stands before it. -/
def DependenciesFirst (r : α → α → Prop) (xs : List α) : Prop :=
  ∀ before x after, xs = before ++ x :: after → ∀ y, r x y → y ∈ before

theorem dependenciesFirst_nil : DependenciesFirst r [] := by
  intro before x after split
  exact absurd split.symm (List.append_ne_nil_of_right_ne_nil _ (List.cons_ne_nil _ _))

/-- An element is put behind its dependencies. -/
theorem DependenciesFirst.concat (ordered : DependenciesFirst r xs) (present : ∀ y, r x y → y ∈ xs) :
    DependenciesFirst r (xs ++ [x]) := by
  intro before z after split y needs
  obtain rfl | ⟨after, last, rfl⟩ := List.eq_nil_or_concat' after
  · obtain ⟨rfl, rfl⟩ := List.append_inj' split rfl
      |>.imp id fun h => (List.cons.inj h).1
    exact present y needs
  · have split : xs ++ [x] = (before ++ z :: after) ++ [last] := by simpa using split
    exact ordered before z after (List.append_inj' split rfl).1 y needs

/-- What is needed through others stands before as well. -/
theorem DependenciesFirst.transGen (ordered : DependenciesFirst r xs) :
    DependenciesFirst (Relation.TransGen r) xs := by
  intro before x after split y needs
  induction needs with
  | single needs => exact ordered before x after split _ needs
  | tail _ needs ih =>
      obtain ⟨before₁, before₂, rfl⟩ := List.append_of_mem ih
      have earlier := ordered before₁ _ (before₂ ++ x :: after) (by simp [split]) _ needs
      exact List.mem_append_left _ earlier

/-- No element of the list depends on itself. -/
theorem DependenciesFirst.not_cyclic (ordered : DependenciesFirst r xs) (mem : x ∈ xs) :
    ¬ Relation.TransGen r x x := by
  classical
  intro cycle
  obtain ⟨before, after, rfl, first⟩ := List.eq_append_cons_of_mem mem
  exact first (ordered.transGen before x after rfl x cycle)

/-- Whatever depends on an element stands behind it. -/
theorem DependenciesFirst.mem_after (ordered : DependenciesFirst r xs) (nodup : xs.Nodup)
    {before after : List α} {y : α} (split : xs = before ++ x :: after) (mem : y ∈ xs)
    (needs : r y x) : y ∈ after := by
  subst split
  obtain mem | rfl | mem := by simpa using mem
  · -- Then the element would stand before it as well.
    obtain ⟨front, back, rfl⟩ := List.append_of_mem mem
    have twice := ordered front y (back ++ x :: after) (by simp) x needs
    have apart := (List.nodup_append.mp nodup).2.2
    exact absurd rfl (apart x (List.mem_append_left _ twice) x (List.mem_cons_self ..))
  · exact absurd (.single needs) (ordered.not_cyclic (by simp))
  · exact mem

end DependencyOrder
