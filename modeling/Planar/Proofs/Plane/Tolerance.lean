import Mathlib.Tactic
import Planar.Scalar

/-!
# Tolerant comparison of rationals

Over the rationals the tests of scalars are what their names say. Closeness is reflexive and
symmetric, and betweenness does not depend on the order of the ends. No test changes when its
coordinates are moved by the same amount.
-/

namespace Planar

/-- Whether a coordinate lies in the closed interval between two ends, in either order. -/
def Within (v a b : ℚ) : Prop := min a b ≤ v ∧ v ≤ max a b

namespace Scalar

variable {a b v : ℚ}

theorem tolerance_pos : (0 : ℚ) < tolerance := by
  show (0 : ℚ) < 1 / 100000
  norm_num

@[simp]
theorem lt_iff : lt a b = true ↔ a < b := decide_eq_true_iff

@[simp]
theorem le_iff : le a b = true ↔ a ≤ b := decide_eq_true_iff

theorem close_iff : close a b = true ↔ |a - b| < tolerance := by
  have habs : (Scalar.abs (a - b) : ℚ) = |a - b| := by
    show (if 0 ≤ a - b then a - b else -(a - b)) = |a - b|
    split
    case isTrue h => exact (abs_of_nonneg h).symm
    case isFalse h => exact (abs_of_neg (not_le.1 h)).symm
  rw [close, lt_iff, habs]

theorem not_close_iff : close a b = false ↔ tolerance ≤ |a - b| := by
  rw [← Bool.not_eq_true, close_iff, not_lt]

@[simp]
theorem close_self (a : ℚ) : close a a = true := by
  rw [close_iff, sub_self, abs_zero]
  exact tolerance_pos

theorem close_comm (a b : ℚ) : close a b = close b a := by
  rw [Bool.eq_iff_iff, close_iff, close_iff, abs_sub_comm]

theorem pointClose_comm (x₁ y₁ x₂ y₂ : ℚ) :
    pointClose x₁ y₁ x₂ y₂ = pointClose x₂ y₂ x₁ y₁ := by
  rw [pointClose, close_comm x₁, close_comm y₁, pointClose]

theorem not_pointClose_iff {x₁ y₁ x₂ y₂ : ℚ} :
    pointClose x₁ y₁ x₂ y₂ = false ↔ tolerance ≤ |x₁ - x₂| ∨ tolerance ≤ |y₁ - y₂| := by
  rw [pointClose, Bool.and_eq_false_iff, not_close_iff, not_close_iff]

theorem between_iff : between v a b = true ↔ min a b - tolerance ≤ v ∧ v ≤ max a b + tolerance := by
  rw [between, ordered]
  by_cases h : a ≤ b
  · rw [if_pos (le_iff.2 h), min_eq_left h, max_eq_right h, Bool.and_eq_true, le_iff, le_iff]
  · have h' : b ≤ a := (not_le.1 h).le
    rw [if_neg (mt le_iff.1 h), min_eq_right h', max_eq_left h', Bool.and_eq_true, le_iff, le_iff]

theorem between_of_within (h : Within v a b) : between v a b = true := by
  have hpos : (0 : ℚ) < tolerance := tolerance_pos
  rw [between_iff]
  constructor
  · linarith [h.1]
  · linarith [h.2]

theorem between_of_le (hlow : a ≤ v) (hhigh : v ≤ b) : between v a b = true :=
  between_of_within ⟨(min_le_left a b).trans hlow, hhigh.trans (le_max_right a b)⟩

/-! ## Moving all coordinates by the same amount -/

theorem close_add_right (a b d : ℚ) : close (a + d) (b + d) = close a b := by
  rw [Bool.eq_iff_iff, close_iff, close_iff, add_sub_add_right_eq_sub]

theorem pointClose_add_right (x₁ y₁ x₂ y₂ dx dy : ℚ) :
    pointClose (x₁ + dx) (y₁ + dy) (x₂ + dx) (y₂ + dy) = pointClose x₁ y₁ x₂ y₂ := by
  rw [pointClose, close_add_right, close_add_right, pointClose]

theorem lt_add_right (a b d : ℚ) : lt (a + d) (b + d) = lt a b := by
  rw [Bool.eq_iff_iff, lt_iff, lt_iff]
  exact add_lt_add_iff_right d

theorem between_add_right (v a b d : ℚ) : between (v + d) (a + d) (b + d) = between v a b := by
  rw [Bool.eq_iff_iff, between_iff, between_iff, min_add_add_right, max_add_add_right]
  constructor
  · rintro ⟨hlow, hhigh⟩
    constructor <;> linarith
  · rintro ⟨hlow, hhigh⟩
    constructor <;> linarith

end Scalar

end Planar
