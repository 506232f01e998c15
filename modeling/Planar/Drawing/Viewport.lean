import Planar.Trace

/-!
# Viewport

The window of a picture is the bounding box of the anchors of its values, with a margin around it
and a least width and height. A line has its crossings with the axes as anchors.
-/

namespace Planar

open Scalar Traced

variable {α : Type} [Scalar α]

/-- The points that pin a value to the plane. The placeholder has none to give. -/
def Value.anchors? : Value α → Option (List (Point α))
  | empty => some []
  | point p => some [p]
  | line l =>
    some (⟨zero, l.intercept⟩ ::
      if eq l.slope zero then [] else [⟨-l.intercept / l.slope, zero⟩])
  | vertical v => some [⟨v.x, zero⟩]
  | segment s => some [⟨s.x₁, s.y₁⟩, ⟨s.x₂, s.y₂⟩]
  | placeholder => none

/-- The run that finds the anchors of a value. -/
def Value.anchors (v : Value α) : Traced α (List (Point α)) :=
  call (.task .anchors) [.value v] .pairs <|
    match v.anchors? with
    | some points => pure points
    | none => fail .noAnchors

/-- The interval around `low` and `high` widened by a margin and, about its middle, to a least
length. -/
def stretch (padding minExtent low high : α) : α × α :=
  let low := low - padding
  let high := high + padding
  let middle := half * (low + high)
  let reach := greatest (half * (high - low)) (half * minExtent)
  (middle - reach, middle + reach)

/-- The window around some points, the first given apart. -/
def Window.around (settings : Settings α) (first : Point α) (more : List (Point α)) : Window α :=
  let extent (axis : Point α → α) : α × α :=
    stretch settings.padding settings.minExtent
      ((more.map axis).foldl least (axis first)) ((more.map axis).foldl greatest (axis first))
  let (xmin, xmax) := extent Point.x
  let (ymin, ymax) := extent Point.y
  ⟨xmin, xmax, ymin, ymax⟩

/-- The window around some points, or the fallback if there are none. -/
def Window.ofAnchors (settings : Settings α) : List (Point α) → Window α
  | [] => settings.fallback
  | first :: more => Window.around settings first more

/-- The run that finds the window of some values. -/
def viewport (values : List (Value α)) (settings : Settings α) : Traced α (Window α) :=
  call (.task .viewport) [.of (.valuesOf values), .of (.settings settings)] .window do
    let anchors ← values.mapM Value.anchors
    return .ofAnchors settings anchors.flatten

end Planar
