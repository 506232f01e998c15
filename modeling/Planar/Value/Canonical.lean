import Planar.Trace

/-!
# Moving values and putting segments in order

`Value.shift` translates a value. `Value.canonical` leaves every value as it is except a segment:
one whose ends are close becomes a point, and the ends of any other are put in order, by height if
they are close in the horizontal direction and from left to right otherwise.
-/

namespace Planar

open Scalar Traced

variable {α : Type} [Scalar α]

/-- The segment with its ends exchanged. -/
def Segment.swap (s : Segment α) : Segment α := ⟨s.x₂, s.y₂, s.x₁, s.y₁⟩

/-- What a segment becomes in canonical form; `none` if it already is. -/
def Segment.amended? (s : Segment α) : Option (Value α) :=
  if pointClose s.x₁ s.y₁ s.x₂ s.y₂ then some (.point ⟨s.x₁, s.y₁⟩)
  else if close s.x₁ s.x₂ then if lt s.y₁ s.y₂ then none else some (.segment s.swap)
  else if lt s.x₂ s.x₁ then some (.segment s.swap)
  else none

namespace Value

/-- What a value becomes in canonical form; `none` if it already is. -/
def amended? : Value α → Option (Value α)
  | segment s => s.amended?
  | _ => none

/-- The owner of the steps of a value. -/
def owner : Value α → ValueOwner
  | empty => .empty
  | point _ => .point
  | line _ => .line
  | vertical _ => .vertical
  | segment _ => .segment
  | placeholder => .shared

/-- The canonical form of a value. -/
def canonical (v : Value α) : Traced α (Value α) :=
  let owner := match v with
    | segment _ => .segment
    | _ => .shared
  call (.ofValue owner .canonical) [.value v] .value (pure (v.amended?.getD v))

/-- A value moved by an offset; the placeholder cannot be moved. -/
def shifted? (dx dy : α) : Value α → Option (Value α)
  | empty => some empty
  | point p => some (point ⟨p.x + dx, p.y + dy⟩)
  | line l => some (line ⟨l.slope, l.intercept + dy - l.slope * dx⟩)
  | vertical v => some (vertical ⟨v.x + dx⟩)
  | segment s => some (segment ⟨s.x₁ + dx, s.y₁ + dy, s.x₂ + dx, s.y₂ + dy⟩)
  | placeholder => none

/-- The run that moves a value by an offset. -/
def shift (v : Value α) (dx dy : α) : Traced α (Value α) :=
  call (.ofValue v.owner .shift) [.value v, .number dx, .number dy] .value <|
    match v.shifted? dx dy with
    | some moved => pure moved
    | none => fail .unsupported

end Value

end Planar
