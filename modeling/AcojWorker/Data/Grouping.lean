import Mathlib.Algebra.BigOperators.Group.List.Basic
import Mathlib.Data.List.Induction
import Mathlib.Data.List.Perm.Basic
import Mathlib.Logic.Function.Basic

/-!
# Grouping a list by keys, in order of first appearance

One pass over a list of keyed elements collects, for every key, its elements in input
order, and the keys in the order in which they first occur. The two results determine
each other's shape: laying the groups out in key order is a permutation of the input,
so a quantity summed group by group is the sum over the input.
-/

namespace Grouping

variable {κ α : Type}

/-- The keys seen so far, and the elements collected under each of them. -/
structure Groups (κ α : Type) where
  order : List κ
  members : κ → List α

variable [DecidableEq κ]

/-- The distinct keys in order of first appearance. -/
def distinct (ks : List κ) : List κ := ks.eraseDups

theorem mem_distinct {ks : List κ} {k : κ} : k ∈ distinct ks ↔ k ∈ ks := List.mem_eraseDups

theorem distinct_concat (ks : List κ) (k : κ) :
    distinct (ks ++ [k]) = if k ∈ ks then distinct ks else distinct ks ++ [k] := by
  rw [distinct, List.eraseDups_append]
  by_cases hk : k ∈ ks
  · simp [distinct, List.removeAll, hk]
  · simp [distinct, List.removeAll, hk, List.eraseDups_cons]

theorem distinct_nodup (ks : List κ) : (distinct ks).Nodup := by
  induction ks using List.reverseRecOn with
  | nil => exact List.nodup_nil
  | append_singleton ks k ih =>
      rw [distinct_concat]
      by_cases hk : k ∈ ks
      · rwa [if_pos hk]
      · rw [if_neg hk]
        refine List.nodup_append.mpr ⟨ih, List.pairwise_singleton _ _, ?_⟩
        rintro k₁ hk₁ k₂ hk₂ rfl
        rw [List.mem_singleton] at hk₂
        exact hk (hk₂ ▸ mem_distinct.mp hk₁)

/-- Renaming the keys apart from each other keeps which of them are new. -/
theorem distinct_map {κ' : Type} [DecidableEq κ'] {f : κ → κ'} (inj : f.Injective)
    (ks : List κ) : distinct (ks.map f) = (distinct ks).map f := by
  induction ks using List.reverseRecOn with
  | nil => rfl
  | append_singleton ks k ih =>
      rw [List.map_append, List.map_singleton, distinct_concat, distinct_concat, ih]
      simp only [List.mem_map_of_injective inj]
      split
      · rfl
      · rw [List.map_append, List.map_singleton]

namespace Groups

def empty : Groups κ α := ⟨[], fun _ => []⟩

/-- Append one element to its group; a new key goes to the end of the order. -/
def add (g : Groups κ α) (k : κ) (a : α) : Groups κ α where
  order := if k ∈ g.order then g.order else g.order ++ [k]
  members := Function.update g.members k (g.members k ++ [a])

/-- The groups laid out one after the other. -/
def flatten (g : Groups κ α) : List α := g.order.flatMap g.members

end Groups

def group (xs : List (κ × α)) : Groups κ α :=
  xs.foldl (fun g x => g.add x.1 x.2) .empty

@[simp] theorem group_nil : group ([] : List (κ × α)) = .empty := rfl

theorem group_concat (xs : List (κ × α)) (x : κ × α) :
    group (xs ++ [x]) = (group xs).add x.1 x.2 := by
  simp only [group, List.foldl_append, List.foldl_cons, List.foldl_nil]

theorem group_members (xs : List (κ × α)) (k : κ) :
    (group xs).members k = (xs.filter (fun x => x.1 = k)).map Prod.snd := by
  induction xs using List.reverseRecOn with
  | nil => rfl
  | append_singleton xs x ih =>
      rw [group_concat, List.filter_append, List.map_append, ← ih]
      by_cases hk : x.1 = k
      · simp [Groups.add, hk]
      · simp [Groups.add, hk, Function.update_of_ne (Ne.symm hk)]

theorem group_order (xs : List (κ × α)) :
    (group xs).order = distinct (xs.map Prod.fst) := by
  induction xs using List.reverseRecOn with
  | nil => rfl
  | append_singleton xs x ih =>
      rw [group_concat, List.map_append, List.map_singleton, distinct_concat, ← ih]
      simp only [Groups.add, ih, mem_distinct]

section Renaming

variable {κ' : Type} [DecidableEq κ'] {f : κ → κ'}

theorem group_order_map (inj : f.Injective) (xs : List (κ × α)) :
    (group (xs.map fun x => (f x.1, x.2))).order = (group xs).order.map f := by
  rw [group_order, group_order, ← distinct_map inj, List.map_map, List.map_map]
  rfl

theorem group_members_map (inj : f.Injective) (xs : List (κ × α)) (k : κ) :
    (group (xs.map fun x => (f x.1, x.2))).members (f k) = (group xs).members k := by
  rw [group_members, group_members, List.filter_map, List.map_map]
  simp only [Function.comp_def, inj.eq_iff]

end Renaming

/-- Distinct keys that cover a list partition it. -/
theorem flatMap_filter_perm (xs : List (κ × α)) (ks : List κ) (distinct : ks.Nodup)
    (cover : ∀ x ∈ xs, x.1 ∈ ks) :
    (ks.flatMap fun k => xs.filter (fun x => x.1 = k)).Perm xs := by
  induction ks generalizing xs with
  | nil =>
      have : xs = [] := List.eq_nil_iff_forall_not_mem.mpr
        (fun x hx => List.not_mem_nil (cover x hx))
      simp [this]
  | cons k ks ih =>
      obtain ⟨fresh, rest⟩ := List.nodup_cons.mp distinct
      -- The other groups only see what the first key leaves over.
      have others : (ks.flatMap fun k' => xs.filter (fun x => x.1 = k')) =
          ks.flatMap fun k' => (xs.filter (fun x => ¬ x.1 = k)).filter (fun x => x.1 = k') := by
        apply List.flatMap_congr
        intro k' hk'
        rw [List.filter_filter]
        apply List.filter_congr
        intro x _
        by_cases hx : x.1 = k'
        · have : k' ≠ k := fun h => fresh (h ▸ hk')
          simp [hx, this]
        · simp [hx]
      have tail := ih (xs.filter (fun x => ¬ x.1 = k)) rest (by
        intro x hx
        obtain ⟨mem, ne⟩ := List.mem_filter.mp hx
        exact (List.mem_cons.mp (cover x mem)).resolve_left (by simpa using ne))
      rw [List.flatMap_cons, others]
      refine (List.Perm.append_left _ tail).trans ?_
      simpa using List.filter_append_perm (fun x => decide (x.1 = k)) xs

/-- Every element is laid out exactly once. -/
theorem flatten_group_perm (xs : List (κ × α)) :
    (group xs).flatten.Perm (xs.map Prod.snd) := by
  have perm := flatMap_filter_perm xs (group xs).order
    (by rw [group_order]; exact distinct_nodup _)
    (fun x hx => by rw [group_order, mem_distinct]; exact List.mem_map_of_mem hx)
  have layout : (group xs).flatten =
      ((group xs).order.flatMap fun k => xs.filter (fun x => x.1 = k)).map Prod.snd := by
    rw [Groups.flatten, List.map_flatMap]
    exact List.flatMap_congr (fun k _ => group_members xs k)
  rw [layout]
  exact perm.map Prod.snd

end Grouping
