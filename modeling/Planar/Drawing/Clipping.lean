import Planar.Drawing.Viewport
import Planar.Sorting
import Planar.Value.Intersection

/-!
# Clipping to a window

The visible part of a line is what lies between its outermost crossings with the border of the
window. Crossings that are close to an earlier one count once, and fewer than two show nothing.
-/

namespace Planar

open Scalar Traced

variable {α : Type} [Scalar α]

/-- The sides of a window: bottom, top, left and right. -/
def Window.sides (w : Window α) : List (Segment α) :=
  [⟨w.xmin, w.ymin, w.xmax, w.ymin⟩, ⟨w.xmin, w.ymax, w.xmax, w.ymax⟩,
    ⟨w.xmin, w.ymin, w.xmin, w.ymax⟩, ⟨w.xmax, w.ymin, w.xmax, w.ymax⟩]

/-- The run that lists the sides of a window. -/
def Window.border (w : Window α) : Traced α (List (Segment α)) :=
  call (.task .border) [.of (.window w)] (fun sides => .values (sides.map .segment)) (pure w.sides)

/-- Whether `p` comes before `q`, from left to right and then upwards. -/
def Point.before (p q : Point α) : Bool := if eq p.x q.x then lt p.y q.y else lt p.x q.x

/-- `hits` with a further point, unless it is close to one of them. -/
def addHit (hits : List (Point α)) (p : Point α) : List (Point α) :=
  if hits.any fun q => pointClose p.x p.y q.x q.y then hits else hits ++ [p]

/-- The first and the last of at least two points, from left to right and then upwards. -/
def extremes? (points : List (Point α)) : Option (Point α × Point α) :=
  if points.length < 2 then none
  else do
    let sorted ← Sorting.sort? (fun p q => some (p.before q)) points
    return (← sorted.head?, ← sorted.getLast?)

/-- The run that collects where a value crosses some sides of a window. -/
def crossings (v : Value α) (hits : List (Point α)) : List (Segment α) → Traced α (List (Point α))
  | [] => pure hits
  | side :: sides => do
    let common ← v.intersect (.segment side)
    let points ← common.anchors
    crossings v (points.foldl addHit hits) sides

/-- Two points as a datum. -/
def Datum.ends : Point α × Point α → Datum α
  | (p, q) => .tuple [.pair p, .pair q]

/-- The run that finds the visible part of a line. -/
def clipToWindow (v : Value α) (w : Window α) : Traced α (Option (Point α × Point α)) :=
  call (.task .clipToWindow) [.value v, .of (.window w)] (.optional Datum.ends) do
    let sides ← w.border
    let hits ← crossings v [] sides
    return extremes? hits

end Planar
