import Mathlib.Algebra.Order.Floor.Ring
import Mathlib.Algebra.Order.Field.Rat
import Mathlib.Data.Rat.Floor
import Mathlib.Tactic.FieldSimp
import Mathlib.Tactic.Linarith
import Mathlib.Tactic.Positivity
import Mathlib.Tactic.Ring
/-!
# Columns — what a fixed-point column does to a number

A `NUMERIC(20, 8)` column rounds to eight decimals, half away from zero, and refuses what is `10 ^ 12` or more once rounded.
A number with at most eight decimals is stored as it is.
-/
namespace Columns

/-- A number at eight decimals, half away from zero. -/
def rounded (x : ℚ) : ℚ := (if x < 0 then -1 else 1) * ((⌊|x| * 10 ^ 8 + 1 / 2⌋ : ℤ) : ℚ) / 10 ^ 8

/-- The column takes the number. -/
def Holds (x : ℚ) : Prop := |rounded x| < 10 ^ 12

instance (x : ℚ) : Decidable (Holds x) := inferInstanceAs (Decidable (_ < _))

/-- A number of at most eight decimals. -/
def Exact (x : ℚ) : Prop := ∃ n : ℤ, x = n / 10 ^ 8

theorem Exact.rounded_eq {x : ℚ} (h : Exact x) : rounded x = x := by
  obtain ⟨n, rfl⟩ := h
  have habs : |(n : ℚ) / 10 ^ 8| * 10 ^ 8 = ((|n| : ℤ) : ℚ) := by
    have h8 : (0 : ℚ) < 10 ^ 8 := by positivity
    rw [abs_div, abs_of_pos h8, div_mul_cancel₀ _ h8.ne', Int.cast_abs]
  have hfloor : ⌊((|n| : ℤ) : ℚ) + 1 / 2⌋ = |n| := by
    rw [Int.floor_eq_iff]
    constructor <;> linarith
  have hneg : (n : ℚ) / 10 ^ 8 < 0 ↔ n < 0 := by
    rw [div_lt_iff₀ (by positivity), zero_mul, Int.cast_lt_zero]
  rw [rounded, habs, hfloor]
  by_cases hn : n < 0
  · rw [if_pos (hneg.2 hn), abs_of_neg hn]
    push_cast
    ring
  · rw [if_neg fun h => hn (hneg.1 h), abs_of_nonneg (not_lt.1 hn), one_mul]

theorem Exact.map_rounded {x : Option ℚ} (h : ∀ y ∈ x, Exact y) : x.map rounded = x := by
  cases x with
  | none => rfl
  | some y => rw [Option.map_some, (h y rfl).rounded_eq]

theorem exact_zero : Exact 0 := ⟨0, by simp⟩

theorem exact_int (n : ℤ) : Exact n := ⟨n * 10 ^ 8, by push_cast; ring⟩

end Columns
