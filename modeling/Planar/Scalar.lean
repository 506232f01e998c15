import Planar.Decimal.Double

/-!
# Scalars and tolerant comparison

Coordinates come from a type of scalars: doubles when the program runs, rationals for exact
reasoning about the same definitions. Two scalars are close when they differ by less than the
tolerance. Closeness is not transitive.
-/

namespace Planar

/-- A type of coordinates: arithmetic, the comparisons as tests, the tolerance below which two
coordinates count as one, and the exact value of those that have one. -/
class Scalar (α : Type) extends Add α, Sub α, Mul α, Div α, Neg α where
  ofNat : Nat → α
  half : α
  tolerance : α
  abs : α → α
  eq : α → α → Bool
  lt : α → α → Bool
  le : α → α → Bool
  ratio? : α → Option Ratio

instance : Scalar Float where
  ofNat := Float.ofNat
  half := 0.5
  tolerance := 0.00001
  abs := Float.abs
  eq a b := a == b
  lt a b := decide (a < b)
  le a b := decide (a ≤ b)
  ratio? x := (Double.ofFloat x).ratio?

instance : Scalar Rat where
  ofNat n := n
  half := 1 / 2
  tolerance := 1 / 100000
  abs := Rat.abs
  eq a b := decide (a = b)
  lt a b := decide (a < b)
  le a b := decide (a ≤ b)
  ratio? x := some ⟨decide (x < 0), x.num.natAbs, x.den, x.den_pos⟩

namespace Scalar

variable {α : Type} [Scalar α]

/-- The origin of both axes. -/
def zero : α := ofNat 0

/-- Whether `a` and `b` differ by less than the tolerance. -/
def close (a b : α) : Bool := lt (abs (a - b)) tolerance

/-- Whether two points, given by their coordinates, are close on both axes. -/
def pointClose (x₁ y₁ x₂ y₂ : α) : Bool := close x₁ x₂ && close y₁ y₂

/-- The two scalars, exchanged unless the first is at most the second. -/
def ordered (a b : α) : α × α := if le a b then (a, b) else (b, a)

/-- Whether `v` lies between two ends, in either order and both widened by the tolerance. -/
def between (v a b : α) : Bool :=
  let (low, high) := ordered a b
  le (low - tolerance) v && le v (high + tolerance)

/-- Whether `a` is a number, that is, equal to itself. -/
def isNumber (a : α) : Bool := eq a a

/-- The smaller of two scalars; one that is no number prevails. -/
def least (a b : α) : α := if !isNumber a then a else if !isNumber b || lt b a then b else a

/-- The greater of two scalars; one that is no number prevails. -/
def greatest (a b : α) : α := if !isNumber a then a else if !isNumber b || lt a b then b else a

end Scalar

end Planar
