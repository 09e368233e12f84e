import LoosePatch.Numeric.Score
import Mathlib.Algebra.Field.Rat
import Mathlib.Algebra.Order.Field.Basic
import Mathlib.Algebra.Order.Ring.Rat

/-!
Scores that do not round. Statements about confidences read them as the fractions they stand for;
`ExactScore` is what such a reading may use, and fractions themselves are the example.
-/

namespace LoosePatch

/-- No operation on these scores rounds, and their order is the order of their exact values. -/
class ExactScore (α : Type) [Score α] : Prop where
  exact_injective : Function.Injective (Score.exact : α → Rat)
  exact_lt (x y : α) : x < y ↔ Score.exact x < Score.exact y
  exact_le (x y : α) : x ≤ y ↔ Score.exact x ≤ Score.exact y
  exact_natCast (n : Nat) : Score.exact ((n : Nat) : α) = n
  exact_decimal (m p : Nat) : Score.exact (Score.decimal m p : α) = mkRat m (10 ^ p)
  exact_add (x y : α) : Score.exact (x + y) = Score.exact x + Score.exact y
  exact_sub (x y : α) : Score.exact (x - y) = Score.exact x - Score.exact y
  exact_mul (x y : α) : Score.exact (x * y) = Score.exact x * Score.exact y
  exact_div (x y : α) : Score.exact (x / y) = Score.exact x / Score.exact y

instance : ExactScore Rat where
  exact_injective := Function.injective_id
  exact_lt _ _ := Iff.rfl
  exact_le _ _ := Iff.rfl
  exact_natCast _ := rfl
  exact_decimal _ _ := rfl
  exact_add _ _ := rfl
  exact_sub _ _ := rfl
  exact_mul _ _ := rfl
  exact_div _ _ := rfl

namespace Score

variable {α : Type} [Score α] [ExactScore α]

theorem exact_one : Score.exact (Score.one : α) = 1 := by
  simpa [Score.one] using ExactScore.exact_natCast (α := α) 1

theorem exact_least (x y : α) :
    Score.exact (Score.least x y) = min (Score.exact x) (Score.exact y) := by
  unfold Score.least
  split
  · rename_i h
    rw [min_eq_right ((ExactScore.exact_lt y x).mp h).le]
  · rename_i h
    rw [min_eq_left (not_lt.mp (mt (ExactScore.exact_lt y x).mpr h))]

/-- A decimal below one is a score below one. -/
theorem exact_decimal_lt_one {m p : Nat} (h : m < 10 ^ p) :
    Score.exact (Score.decimal m p : α) < 1 := by
  rw [ExactScore.exact_decimal, Rat.mkRat_eq_div]
  have hp : (0 : Rat) < ((10 ^ p : Nat) : Rat) := by
    exact_mod_cast Nat.pow_pos (by decide)
  rw [div_lt_one (by exact_mod_cast hp)]
  exact_mod_cast h

theorem eq_one_iff (x : α) : x = Score.one ↔ Score.exact x = 1 := by
  rw [← exact_one (α := α)]
  exact ExactScore.exact_injective.eq_iff.symm

theorem lt_one_iff (x : α) : x < Score.one ↔ Score.exact x < 1 := by
  rw [ExactScore.exact_lt, exact_one]

end Score
end LoosePatch
