import Mathlib.Tactic.Linarith
import Mathlib.Tactic.Ring
import Mathlib.Algebra.Order.Ring.Int

/-!
# Digital lines

Two coordinates go down to zero, `p` from `a` and `q` from `b`. In every round each of them
decides from `b * p - a * q` whether it takes a step. If `b ≤ a`, the first one always does, and
the second one is never out of proportion by more than a step: both arrive together.
-/

namespace DigitalLine

/-- The coordinate of which `p` out of `a` is left takes a step, beside `q` out of `b`. -/
def Steps (a b p q : ℤ) : Prop := b - 2 * a ≤ 2 * (b * p - a * q)

instance (a b p q : ℤ) : Decidable (Steps a b p q) := inferInstanceAs (Decidable (_ ≤ _))

/-- What is left of a way after a round. -/
def rest (a b p q : ℤ) : ℤ := if Steps a b p q then p - 1 else p

/-- What is left of the shorter way is in proportion to what is left of the longer one. -/
structure Balanced (a b p q : ℤ) : Prop where
  shorter : b ≤ a
  leftLonger : 0 ≤ p
  leftShorter : 0 ≤ q
  withinLonger : p ≤ a
  withinShorter : q ≤ b
  steps : Steps a b p q
  ahead : 2 * (b * p - a * q) ≤ a

variable {a b p q : ℤ}

theorem balanced_start (shorter : b ≤ a) (nonneg : 0 ≤ b) : Balanced a b a b where
  shorter := shorter
  leftLonger := nonneg.trans shorter
  leftShorter := nonneg
  withinLonger := le_rfl
  withinShorter := le_rfl
  steps := by
    rw [Steps]
    linarith
  ahead := by linarith

/-- The longer way is the one that is left. -/
theorem Balanced.le (balanced : Balanced a b p q) : q ≤ p := by
  by_contra behind
  have more : p + 1 ≤ q := by omega
  have positive : 0 < b := lt_of_lt_of_le (by linarith [balanced.leftLonger]) balanced.withinShorter
  have room : 0 < a := positive.trans_le balanced.shorter
  have far : a * (p + 1) ≤ a * q := mul_le_mul_of_nonneg_left more room.le
  have near : b * p ≤ a * p := mul_le_mul_of_nonneg_right balanced.shorter balanced.leftLonger
  have steps : b - 2 * a ≤ 2 * (b * p - a * q) := balanced.steps
  linarith

/-- A coordinate that has arrived takes no step any more. -/
theorem Balanced.left_of_steps (balanced : Balanced a b p q) (left : 0 < p)
    (step : Steps b a q p) : 0 < q := by
  by_contra none
  have arrived : q = 0 := le_antisymm (not_lt.mp none) balanced.leftShorter
  have few : a - 2 * b ≤ 2 * (a * q - b * p) := step
  rw [arrived, mul_zero] at few
  have nonneg : 0 ≤ b := balanced.leftShorter.trans balanced.withinShorter
  have more : b * 1 ≤ b * p := mul_le_mul_of_nonneg_left left nonneg
  have long : p ≤ a := balanced.withinLonger
  linarith

theorem Balanced.rest_longer (balanced : Balanced a b p q) : rest a b p q = p - 1 :=
  if_pos balanced.steps

/-- After a round everything is in proportion again, whether or not the shorter way took a
step. -/
theorem Balanced.round (balanced : Balanced a b p q) (left : 0 < p) :
    Balanced a b (p - 1) (rest b a q p) := by
  have shorter := balanced.shorter
  have leftShorter := balanced.leftShorter
  have withinLonger := balanced.withinLonger
  have withinShorter := balanced.withinShorter
  have ahead := balanced.ahead
  have behind : b - 2 * a ≤ 2 * (b * p - a * q) := balanced.steps
  by_cases step : Steps b a q p
  · have more : 0 < q := balanced.left_of_steps left step
    have few : a - 2 * b ≤ 2 * (a * q - b * p) := step
    have outcome : b * (p - 1) - a * (q - 1) = b * p - a * q - b + a := by ring
    rw [rest, if_pos step]
    constructor
    · exact shorter
    · omega
    · omega
    · omega
    · omega
    · rw [Steps, outcome]
      omega
    · rw [outcome]
      omega
  · have many : 2 * (a * q - b * p) < a - 2 * b := not_le.mp step
    have outcome : b * (p - 1) - a * q = b * p - a * q - b := by ring
    rw [rest, if_neg step]
    constructor
    · exact shorter
    · omega
    · exact leftShorter
    · omega
    · exact withinShorter
    · rw [Steps, outcome]
      omega
    · rw [outcome]
      omega

/-! ### Both ways, whichever is longer -/

/-- One of the two ways is the longer one, and they are balanced. -/
def Underway (a b p q : ℤ) : Prop := Balanced a b p q ∨ Balanced b a q p

theorem underway_start (a b : ℤ) (nonnegA : 0 ≤ a) (nonnegB : 0 ≤ b) : Underway a b a b := by
  rcases le_total b a with shorter | shorter
  · exact .inl (balanced_start shorter nonnegB)
  · exact .inr (balanced_start shorter nonnegA)

theorem Underway.left_nonneg (underway : Underway a b p q) : 0 ≤ p ∧ 0 ≤ q := by
  rcases underway with balanced | balanced
  · exact ⟨balanced.leftLonger, balanced.leftShorter⟩
  · exact ⟨balanced.leftShorter, balanced.leftLonger⟩

theorem rest_bounds (a b p q : ℤ) : p - 1 ≤ rest a b p q ∧ rest a b p q ≤ p := by
  rw [rest]
  split <;> omega

/-- Every round brings the end nearer by one, until it is reached. -/
theorem Underway.round (underway : Underway a b p q) (left : 0 < max p q) :
    Underway a b (rest a b p q) (rest b a q p) ∧
      max (rest a b p q) (rest b a q p) = max p q - 1 := by
  rcases underway with balanced | balanced
  · have most : max p q = p := max_eq_left balanced.le
    have next := balanced.round (most ▸ left)
    rw [balanced.rest_longer, most]
    exact ⟨.inl next, max_eq_left next.le⟩
  · have most : max p q = q := max_eq_right balanced.le
    have next := balanced.round (most ▸ left)
    rw [balanced.rest_longer, most]
    exact ⟨.inr next, max_eq_right next.le⟩

end DigitalLine
