import Mathlib.Algebra.Order.Ring.Rat
import Mathlib.Data.List.Perm.Subperm
import Mathlib.Logic.Function.Basic

/-!
# Sorted sets

The part of a Redis server that keeps members with scores: adding a member, removing the
members of a range of scores, counting, and the expiry of a whole key. The moment of a command
is a parameter, since a key that has expired is read as if it had never been written.
-/

namespace Redis

/-- Members with their scores, each member once. -/
structure SortedSet (α : Type) where
  entries : List (α × ℚ)
  distinct : (entries.map Prod.fst).Nodup

namespace SortedSet

variable {α : Type}

def empty : SortedSet α := ⟨[], List.nodup_nil⟩

/-- `ZADD`: a member that is there gets the new score. -/
def zadd [DecidableEq α] (set : SortedSet α) (member : α) (score : ℚ) : SortedSet α where
  entries := (member, score) :: set.entries.filter fun e => decide (e.1 ≠ member)
  distinct := by
    rw [List.map_cons, List.nodup_cons]
    constructor
    · intro h
      obtain ⟨e, he, same⟩ := List.mem_map.mp h
      exact (of_decide_eq_true (List.mem_filter.mp he).2) same
    · exact set.distinct.sublist (List.filter_sublist.map _)

/-- `ZREMRANGEBYSCORE`, both bounds included. -/
def zremrangebyscore (set : SortedSet α) (low high : ℚ) : SortedSet α where
  entries := set.entries.filter fun e => decide ¬ (low ≤ e.2 ∧ e.2 ≤ high)
  distinct := set.distinct.sublist (List.filter_sublist.map _)

/-- `ZCARD`. -/
def zcard (set : SortedSet α) : Nat := set.entries.length

@[simp] theorem mem_zadd [DecidableEq α] {set : SortedSet α} {member : α} {score : ℚ} {e : α × ℚ} :
    e ∈ (set.zadd member score).entries ↔
      e = (member, score) ∨ e ∈ set.entries ∧ e.1 ≠ member := by
  simp [zadd]

@[simp] theorem mem_zremrangebyscore {set : SortedSet α} {low high : ℚ} {e : α × ℚ} :
    e ∈ (set.zremrangebyscore low high).entries ↔
      e ∈ set.entries ∧ ¬ (low ≤ e.2 ∧ e.2 ≤ high) := by
  rw [zremrangebyscore, List.mem_filter, decide_eq_true_iff]

/-- Entries that are all in the set are no more than its members. -/
theorem length_le_zcard {set : SortedSet α} {entries : List (α × ℚ)} (nodup : entries.Nodup)
    (inside : ∀ e ∈ entries, e ∈ set.entries) : entries.length ≤ set.zcard :=
  (List.subperm_of_subset nodup inside).length_le

end SortedSet

/-! ### Keys -/

/-- The sorted sets of a server, each with the moment after which its key is gone. -/
structure Sets (α : Type) where
  at_key : String → SortedSet α × Option ℚ

namespace Sets

variable {α : Type}

def empty : Sets α := ⟨fun _ => (.empty, none)⟩

/-- What a command at `now` finds under a key. -/
def found (sets : Sets α) (key : String) (now : ℚ) : SortedSet α × Option ℚ :=
  match sets.at_key key with
  | (set, some expiry) => if expiry < now then (.empty, none) else (set, some expiry)
  | (set, none) => (set, none)

def modify (sets : Sets α) (key : String) (now : ℚ) (f : SortedSet α → SortedSet α) : Sets α :=
  ⟨Function.update sets.at_key key (f (sets.found key now).1, (sets.found key now).2)⟩

/-- `EXPIRE`. -/
def expire (sets : Sets α) (key : String) (seconds now : ℚ) : Sets α :=
  ⟨Function.update sets.at_key key ((sets.found key now).1, some (now + seconds))⟩

theorem found_modify {sets : Sets α} {key : String} {now : ℚ} {f : SortedSet α → SortedSet α} :
    (sets.modify key now f).found key now = (f (sets.found key now).1, (sets.found key now).2) := by
  have alive : ∀ expiry, (sets.found key now).2 = some expiry → ¬ expiry < now := by
    intro expiry h expired
    rw [found] at h
    split at h
    · split at h
      · cases h
      · cases h
        contradiction
    · cases h
  rw [found, modify]
  simp only [Function.update_self]
  cases h : (sets.found key now).2 with
  | none => rfl
  | some expiry => exact if_neg (alive expiry h)

/-- A key is found again until its time is over. -/
theorem found_expire {sets : Sets α} {key : String} {seconds now later : ℚ}
    (alive : later ≤ now + seconds) :
    (sets.expire key seconds now).found key later =
      ((sets.found key now).1, some (now + seconds)) := by
  rw [found, expire]
  simp only [Function.update_self]
  exact if_neg (not_lt.mpr alive)

/-- After that it is gone. -/
theorem found_expired {sets : Sets α} {key : String} {seconds now later : ℚ}
    (late : now + seconds < later) :
    (sets.expire key seconds now).found key later = (.empty, none) := by
  rw [found, expire]
  simp only [Function.update_self]
  exact if_pos late

theorem found_modify_of_ne {sets : Sets α} {key other : String} {now later : ℚ}
    {f : SortedSet α → SortedSet α} (h : other ≠ key) :
    (sets.modify key now f).found other later = sets.found other later := by
  simp only [found, modify, Function.update_of_ne h]

theorem found_expire_of_ne {sets : Sets α} {key other : String} {seconds now later : ℚ}
    (h : other ≠ key) : (sets.expire key seconds now).found other later = sets.found other later := by
  simp only [found, expire, Function.update_of_ne h]

end Sets

end Redis
