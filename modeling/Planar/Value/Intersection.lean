import Planar.Value.Canonical

/-!
# Intersection

The common points of two values, as a value. To intersect `a` with `b`, `b` is asked to meet the
kind that `a` is of. Points and lines meet each other directly. A segment meets a value in two
steps: the value meets the line through the segment, and the result is clipped to the segment.
Since the line is no segment, this takes at most two rounds.

Clipping takes for granted that segments are canonical and that what is clipped lies on the line.
-/

namespace Planar

open Scalar Traced

variable {α : Type} [Scalar α]

/-- The line through a segment: one with a slope, or a vertical one. -/
inductive Straight (α : Type) where
  | line (l : Line α)
  | vertical (v : Vertical α)

/-- A line as a value. -/
def Straight.toValue : Straight α → Value α
  | line l => .line l
  | vertical v => .vertical v

/-! ## Points and lines -/

namespace Point

/-- A point meets a point close to it. -/
def atPoint (p q : Point α) : Value α := if pointClose p.x p.y q.x q.y then .point p else .empty

/-- A point meets a line that passes close above or below it. -/
def atLine (p : Point α) (l : Line α) : Value α :=
  if close p.y (l.slope * p.x + l.intercept) then .point p else .empty

/-- A point meets a vertical line that passes close to it. -/
def atVertical (p : Point α) (v : Vertical α) : Value α :=
  if close p.x v.x then .point p else .empty

/-- A point on the line through a segment, kept if it lies within the segment. -/
def within (p : Point α) (s : Segment α) : Value α :=
  if between p.x s.x₁ s.x₂ && between p.y s.y₁ s.y₂ then .point p else .empty

/-- The point `p` meets the point `q`. -/
def meetPoint (p q : Point α) : Traced α (Value α) :=
  call (.ofValue .point .meetPoint) [.value (.point p), .value (.point q)] .value
    (pure (p.atPoint q))

/-- The point `p` meets a line. -/
def meetLine (p : Point α) (l : Line α) : Traced α (Value α) :=
  call (.ofValue .point .meetLine) [.value (.point p), .value (.line l)] .value
    (pure (p.atLine l))

/-- The point `p` meets a vertical line. -/
def meetVertical (p : Point α) (v : Vertical α) : Traced α (Value α) :=
  call (.ofValue .point .meetVertical) [.value (.point p), .value (.vertical v)] .value
    (pure (p.atVertical v))

end Point

namespace Line

/-- Two lines of close slopes meet in the first if their intercepts are close, and nowhere
otherwise; any other two meet in one point of the first. -/
def atLine (l k : Line α) : Value α :=
  if close l.slope k.slope then
    if close l.intercept k.intercept then .line l else .empty
  else
    let x := (k.intercept - l.intercept) / (l.slope - k.slope)
    .point ⟨x, l.slope * x + l.intercept⟩

/-- A line meets a vertical line in one point. -/
def atVertical (l : Line α) (v : Vertical α) : Value α :=
  .point ⟨v.x, l.slope * v.x + l.intercept⟩

/-- The line `l` meets a point. -/
def meetPoint (l : Line α) (p : Point α) : Traced α (Value α) :=
  call (.ofValue .line .meetPoint) [.value (.line l), .value (.point p)] .value
    (p.meetLine l)

/-- The line `l` meets the line `k`. -/
def meetLine (l k : Line α) : Traced α (Value α) :=
  call (.ofValue .line .meetLine) [.value (.line l), .value (.line k)] .value
    (pure (l.atLine k))

/-- The line `l` meets a vertical line. -/
def meetVertical (l : Line α) (v : Vertical α) : Traced α (Value α) :=
  call (.ofValue .line .meetVertical) [.value (.line l), .value (.vertical v)] .value
    (pure (l.atVertical v))

end Line

namespace Vertical

/-- Two vertical lines meet in the first if they are close, and nowhere otherwise. -/
def atVertical (v w : Vertical α) : Value α := if close v.x w.x then .vertical v else .empty

/-- The vertical line `v` meets a point. -/
def meetPoint (v : Vertical α) (p : Point α) : Traced α (Value α) :=
  call (.ofValue .vertical .meetPoint) [.value (.vertical v), .value (.point p)] .value
    (p.meetVertical v)

/-- The vertical line `v` meets a line. -/
def meetLine (v : Vertical α) (l : Line α) : Traced α (Value α) :=
  call (.ofValue .vertical .meetLine) [.value (.vertical v), .value (.line l)] .value
    (l.meetVertical v)

/-- The vertical line `v` meets the vertical line `w`. -/
def meetVertical (v w : Vertical α) : Traced α (Value α) :=
  call (.ofValue .vertical .meetVertical) [.value (.vertical v), .value (.vertical w)]
    .value (pure (v.atVertical w))

end Vertical

namespace Straight

/-- A line meets a point. -/
def meetPoint (s : Straight α) (p : Point α) : Traced α (Value α) :=
  match s with
  | line l => l.meetPoint p
  | vertical v => v.meetPoint p

/-- A line meets a line with a slope. -/
def meetLine (s : Straight α) (l : Line α) : Traced α (Value α) :=
  match s with
  | line k => k.meetLine l
  | vertical v => v.meetLine l

/-- A line meets a vertical line. -/
def meetVertical (s : Straight α) (v : Vertical α) : Traced α (Value α) :=
  match s with
  | line l => l.meetVertical v
  | vertical w => w.meetVertical v

end Straight

/-- Intersects a point with a line. -/
def Point.intersectStraight (p : Point α) (s : Straight α) : Traced α (Value α) :=
  call (.ofValue .point .intersect) [.value (.point p), .value s.toValue] .value
    (s.meetPoint p)

/-- Intersects a line that has a slope with a line. -/
def Line.intersectStraight (l : Line α) (s : Straight α) : Traced α (Value α) :=
  call (.ofValue .line .intersect) [.value (.line l), .value s.toValue] .value
    (s.meetLine l)

/-- Intersects a vertical line with a line. -/
def Vertical.intersectStraight (v : Vertical α) (s : Straight α) : Traced α (Value α) :=
  call (.ofValue .vertical .intersect) [.value (.vertical v), .value s.toValue] .value
    (s.meetVertical v)

/-! ## Segments -/

namespace Segment

/-- Whether the ends of a segment are close in the horizontal direction. -/
def isVertical (s : Segment α) : Bool := close s.x₁ s.x₂

/-- The line through both ends of a segment. -/
def support (s : Segment α) : Straight α :=
  if s.isVertical then .vertical ⟨s.x₁⟩
  else
    let slope := (s.y₂ - s.y₁) / (s.x₂ - s.x₁)
    .line ⟨slope, s.y₁ - slope * s.x₁⟩

/-- The start of a segment along the axis in use. -/
def start (upright : Bool) (s : Segment α) : α := if upright then s.y₁ else s.x₁

/-- The end of a segment along the axis in use. -/
def stop (upright : Bool) (s : Segment α) : α := if upright then s.y₂ else s.x₂

/-- What two segments of one line share, when `first` is the one that starts first along the axis
in use: nothing, the point where one ends and the other starts, all of `second`, or the part from
the start of `second` to the end of `first`. -/
def overlap (upright : Bool) (first second : Segment α) : Value α :=
  if close (first.stop upright) (second.start upright) then .point ⟨first.x₂, first.y₂⟩
  else if lt (first.stop upright) (second.start upright) then .empty
  else if lt (second.stop upright) (first.stop upright) then .segment second
  else .segment ⟨second.x₁, second.y₁, first.x₂, first.y₂⟩

/-- What two segments of one line share; the axis in use is the one along which `s` varies. -/
def common (s t : Segment α) : Value α :=
  let upright := s.isVertical
  if lt (s.start upright) (t.start upright) then overlap upright s t else overlap upright t s

/-- The run that tests whether a segment is vertical. -/
def checkVertical (s : Segment α) : Traced α Bool :=
  call (.ofValue .segment .isVertical) [.value (.segment s)] .flag (pure s.isVertical)

/-- The run that finds the line through a segment. -/
def lineThrough (s : Segment α) : Traced α (Straight α) :=
  call (.task .lineThrough) [.value (.segment s)] (fun l => .value l.toValue) do
    let _ ← s.checkVertical
    return s.support

end Segment

/-- What a value on the line through a segment becomes when it is clipped to the segment; the
placeholder cannot be clipped. -/
def Value.clipped? (s : Segment α) : Value α → Option (Value α)
  | .empty => some .empty
  | .point p => some (p.within s)
  | .line _ | .vertical _ => some (.segment s)
  | .segment t => some (t.common s)
  | .placeholder => none

/-- The run that clips a value to a segment on whose line it lies. -/
def Value.clip (v : Value α) (s : Segment α) : Traced α (Value α) :=
  call (.ofValue v.owner .clip) [.value v, .value (.segment s)] .value do
    -- Two segments are compared along an axis, and choosing it is an event of its own.
    if let .segment t := v then
      let _ ← t.checkVertical
    match v.clipped? s with
    | some clipped => return clipped
    | none => fail .unsupported

/-- A value meets a segment: `intersect` takes it to the line through the segment, and the result
is clipped. -/
def Segment.meetBy (s : Segment α) (v : Value α)
    (intersect : Straight α → Traced α (Value α)) : Traced α (Value α) :=
  call (.ofValue .shared .meetSegment) [.value v, .value (.segment s)] .value do
    let line ← s.lineThrough
    let result ← intersect line
    result.clip s

/-- A point meets a segment. -/
def Point.meetSegment (p : Point α) (s : Segment α) : Traced α (Value α) :=
  s.meetBy (.point p) p.intersectStraight

/-- A line that has a slope meets a segment. -/
def Line.meetSegment (l : Line α) (s : Segment α) : Traced α (Value α) :=
  s.meetBy (.line l) l.intersectStraight

/-- A vertical line meets a segment. -/
def Vertical.meetSegment (v : Vertical α) (s : Segment α) : Traced α (Value α) :=
  s.meetBy (.vertical v) v.intersectStraight

/-- A line meets a segment. -/
def Straight.meetSegment (l : Straight α) (s : Segment α) : Traced α (Value α) :=
  match l with
  | line l => l.meetSegment s
  | vertical v => v.meetSegment s

/-- Intersects a segment with a line. -/
def Segment.intersectStraight (s : Segment α) (l : Straight α) : Traced α (Value α) :=
  call (.ofValue .segment .intersect) [.value (.segment s), .value l.toValue] .value
    (l.meetSegment s)

/-- The segment `t` meets the segment `s`. -/
def Segment.meetSegment (t s : Segment α) : Traced α (Value α) :=
  s.meetBy (.segment t) t.intersectStraight

/-! ## All kinds -/

namespace Value

/-- Any value meets the empty set in the empty set. -/
def meetEmpty (v : Value α) : Traced α (Value α) :=
  call (.ofValue .shared .meetEmpty) [.value v, .value .empty] .value (pure .empty)

/-- A value meets a point. -/
def meetPoint (v : Value α) (p : Point α) : Traced α (Value α) :=
  match v with
  | point q => q.meetPoint p
  | line l => l.meetPoint p
  | vertical w => w.meetPoint p
  | _ =>
    call (.ofValue v.owner .meetPoint) [.value v, .value (.point p)] .value <|
      match v with
      | segment s => p.meetSegment s
      | placeholder => fail .unsupported
      | _ => pure v

/-- A value meets a line that has a slope. -/
def meetLine (v : Value α) (l : Line α) : Traced α (Value α) :=
  match v with
  | point q => q.meetLine l
  | line k => k.meetLine l
  | vertical w => w.meetLine l
  | _ =>
    call (.ofValue v.owner .meetLine) [.value v, .value (.line l)] .value <|
      match v with
      | segment s => l.meetSegment s
      | placeholder => fail .unsupported
      | _ => pure v

/-- A value meets a vertical line. -/
def meetVertical (v : Value α) (w : Vertical α) : Traced α (Value α) :=
  match v with
  | point q => q.meetVertical w
  | line l => l.meetVertical w
  | vertical u => u.meetVertical w
  | _ =>
    call (.ofValue v.owner .meetVertical) [.value v, .value (.vertical w)] .value <|
      match v with
      | segment s => w.meetSegment s
      | placeholder => fail .unsupported
      | _ => pure v

/-- The placeholder cannot be intersected with anything. -/
def refuse (l : Straight α) : Traced α (Value α) :=
  call (.ofValue .shared .intersect) [.value .placeholder, .value l.toValue] .value
    (fail .unsupported)

/-- A value meets a segment. -/
def meetSegment (v : Value α) (s : Segment α) : Traced α (Value α) :=
  match v with
  | empty =>
    call (.ofValue .empty .meetSegment) [.value v, .value (.segment s)] .value (pure v)
  | point p => p.meetSegment s
  | line l => l.meetSegment s
  | vertical w => w.meetSegment s
  | segment t => t.meetSegment s
  | placeholder => s.meetBy .placeholder refuse

/-- Intersects two values by asking the second to meet the kind of the first. -/
def dispatch (a b : Value α) : Traced α (Value α) :=
  call (.ofValue a.owner .intersect) [.value a, .value b] .value <|
    match a with
    | empty => b.meetEmpty
    | point p => b.meetPoint p
    | line l => b.meetLine l
    | vertical v => b.meetVertical v
    | segment s => b.meetSegment s
    | placeholder => fail .unsupported

/-- The run that intersects two values. -/
def intersect (a b : Value α) : Traced α (Value α) :=
  call (.task .intersect) [.value a, .value b] .value (a.dispatch b)

/-- The run that clips a value to a segment, as a task of its own. -/
def clipTo (v : Value α) (s : Segment α) : Traced α (Value α) :=
  call (.task .clip) [.value v, .value (.segment s)] .value (v.clip s)

end Value

end Planar
