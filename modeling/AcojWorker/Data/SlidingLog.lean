import Mathlib.Algebra.Order.Group.Defs
import Mathlib.Data.List.Dedup
import Mathlib.Data.List.Induction
import Mathlib.Data.List.Perm.Subperm

/-!
# Sliding logs

A limit for every window of one length, kept by writing down the moment of every attempt, the
refused ones too. An attempt is accepted if the window that ends with it holds no more
different moments than the limit.
-/

namespace SlidingLog

variable {α : Type} [AddCommGroup α] [LinearOrder α]

/-- The different moments of the window that ends at `now`. -/
def window (width now : α) (times : List α) : List α :=
  (times.filter fun t => now - width < t).dedup

/-- The attempt at `now` is accepted after the attempts `before` it. -/
def Accepts (width : α) (limit : Nat) (before : List α) (now : α) : Prop :=
  (window width now (before ++ [now])).length ≤ limit

instance (width : α) (limit : Nat) (before : List α) (now : α) :
    Decidable (Accepts width limit before now) :=
  inferInstanceAs (Decidable (_ ≤ _))

/-- The moments of the accepted ones among attempts that come after `before`. -/
def acceptedAfter (width : α) (limit : Nat) : List α → List α → List α
  | _, [] => []
  | before, now :: rest =>
      (if Accepts width limit before now then [now] else []) ++
        acceptedAfter width limit (before ++ [now]) rest

def accepted (width : α) (limit : Nat) (times : List α) : List α :=
  acceptedAfter width limit [] times

section Attempts

variable {width now : α} {limit : Nat} {times : List α} {t : α}

theorem mem_window : t ∈ window width now times ↔ t ∈ times ∧ now - width < t := by
  rw [window, List.mem_dedup, List.mem_filter, decide_eq_true_iff]

theorem window_nodup : (window width now times).Nodup :=
  List.nodup_dedup _

theorem acceptedAfter_concat (before times : List α) (now : α) :
    acceptedAfter width limit before (times ++ [now]) =
      acceptedAfter width limit before times ++
        if Accepts width limit (before ++ times) now then [now] else [] := by
  induction times generalizing before with
  | nil =>
      rw [List.append_nil]
      exact List.append_nil _
  | cons t times ih =>
      rw [List.cons_append, acceptedAfter, ih, acceptedAfter, List.append_assoc before,
        List.append_assoc]
      rfl

theorem accepted_concat (times : List α) (now : α) :
    accepted width limit (times ++ [now]) =
      accepted width limit times ++ if Accepts width limit times now then [now] else [] :=
  acceptedAfter_concat [] times now

theorem accepted_subset (times : List α) : accepted width limit times ⊆ times := by
  induction times using List.reverseRecOn with
  | nil => exact List.Subset.refl _
  | append_singleton times now ih =>
      rw [accepted_concat]
      apply List.append_subset.mpr
      constructor
      · exact List.Subset.trans ih (List.subset_append_left _ _)
      · split
        · exact List.subset_append_right _ _
        · exact List.nil_subset _

/-- In no window are more different moments accepted than the limit allows. -/
theorem accepted_le [IsOrderedAddMonoid α] (times : List α) {inside : α → Bool}
    (short : ∀ s t, inside s → inside t → t - s < width) :
    ((accepted width limit times).filter inside).dedup.length ≤ limit := by
  induction times using List.reverseRecOn with
  | nil => exact Nat.zero_le _
  | append_singleton times now ih =>
      rw [accepted_concat]
      split
      · next accepts =>
          by_cases within : inside now = true
          · -- Whatever was accepted in this window lies in the window that ends now.
            refine (List.subperm_of_subset (List.nodup_dedup _) fun t ht => ?_).length_le.trans
              accepts
            obtain ⟨mem, own⟩ := List.mem_filter.mp (List.mem_dedup.mp ht)
            refine mem_window.mpr ⟨?_, sub_lt_comm.mp (short t now own within)⟩
            obtain old | new := List.mem_append.mp mem
            · exact List.mem_append_left _ (accepted_subset times old)
            · exact List.mem_append_right _ new
          · rw [List.filter_append, List.filter_cons_of_neg within, List.filter_nil, List.append_nil]
            exact ih
      · rw [List.append_nil]
        exact ih

end Attempts

end SlidingLog
