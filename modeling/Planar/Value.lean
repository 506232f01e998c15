import Planar.Scalar

/-!
# Values of the plane

A value is a set of points: none, one, a line with a slope, a vertical line, or a closed segment.
A sixth, the placeholder, stands where no set has been given; it has no coordinates and takes part
in next to no operation.
-/

namespace Planar

/-- A point of the plane. -/
structure Point (α : Type) where
  x : α
  y : α
deriving DecidableEq

/-- The line `y = slope * x + intercept`. -/
structure Line (α : Type) where
  slope : α
  intercept : α
deriving DecidableEq

/-- The vertical line at `x`. -/
structure Vertical (α : Type) where
  x : α
deriving DecidableEq

/-- The closed segment from the first end to the second. -/
structure Segment (α : Type) where
  x₁ : α
  y₁ : α
  x₂ : α
  y₂ : α
deriving DecidableEq

/-- A set of points of the plane, or the placeholder for one. -/
inductive Value (α : Type) where
  | empty
  | point (p : Point α)
  | line (l : Line α)
  | vertical (v : Vertical α)
  | segment (s : Segment α)
  | placeholder
deriving DecidableEq

namespace Value

variable {α : Type}

/-- The word for a kind of value in source text; the placeholder has none. -/
def kind : Value α → String
  | empty => "empty"
  | point _ => "point"
  | line _ => "line"
  | vertical _ => "vline"
  | segment _ => "segment"
  | placeholder => ""

/-- The coordinates that define a value, in the order of source text. -/
def coordinates? : Value α → Option (List α)
  | empty => some []
  | point p => some [p.x, p.y]
  | line l => some [l.slope, l.intercept]
  | vertical v => some [v.x]
  | segment s => some [s.x₁, s.y₁, s.x₂, s.y₂]
  | placeholder => none

/-- Whether a value is one of the five kinds of set. -/
def IsConcrete (v : Value α) : Prop := v ≠ placeholder

theorem isConcrete_iff (v : Value α) : v.IsConcrete ↔ v.coordinates?.isSome := by
  cases v <;> simp [IsConcrete, coordinates?]

/-- Whether two values are of one kind and `same` holds of their coordinates in turn; the
placeholder is compared with nothing. -/
def agree (same : α → α → Bool) (a b : Value α) : Bool :=
  match a.coordinates?, b.coordinates? with
  | some as, some bs => a.kind == b.kind && (as.zip bs).all fun (u, v) => same u v
  | _, _ => false

/-- Whether two values have equal coordinates. -/
def equal [Scalar α] (a b : Value α) : Bool := a.agree Scalar.eq b

/-- Whether two values have close coordinates. -/
def close [Scalar α] (a b : Value α) : Bool := a.agree Scalar.close b

end Value

end Planar
