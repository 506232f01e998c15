import Planar.Expr.Evaluation

/-!
# The tests that a run decides

Evaluation asks two questions about coordinates up to the tolerance: whether two of them are close
and whether one lies between two others. `Decided` runs keep a list of the questions that they ask,
in the order in which they are asked; a question that is never reached is not listed.

* `Decided.evaluate` — evaluation with its list of tests;
* `Decided.result_evaluate` — apart from the list it is `Expr.evaluate`.
-/

namespace Planar

open Scalar

/-- A value meets a segment on the line through the segment, and the result is clipped. -/
theorem Segment.result_meetBy {α : Type} [Scalar α] (s : Segment α) (v : Value α)
    (intersect : Straight α → Traced α (Value α)) :
    (s.meetBy v intersect).result =
      (intersect s.support).result >>= fun r => (r.clip s).result := by
  simp only [meetBy, lineThrough, checkVertical, Traced.result_call, Traced.result_bind,
    Traced.result_pure]
  rfl

/-- A question about coordinates that is answered up to the tolerance. -/
inductive Test (α : Type) where
  | close (u v : α)
  | between (v a b : α)

/-- A run that yields a `β` or a fault, and lists the tests that it decides. -/
structure Decided (α β : Type) where
  result : Except Fault β
  tests : List (Test α)

namespace Decided

variable {α β γ : Type}

/-- The run that fails and decides nothing. -/
def fail (fault : Fault) : Decided α β := ⟨.error fault, []⟩

/-- The run of a result or fault that is already known. -/
def ofExcept (result : Except Fault β) : Decided α β := ⟨result, []⟩

/-- Runs `first`, then what `next` makes of its result. -/
def andThen (first : Decided α β) (next : β → Decided α γ) : Decided α γ :=
  match first.result with
  | .ok b => ⟨(next b).result, first.tests ++ (next b).tests⟩
  | .error fault => ⟨.error fault, first.tests⟩

instance : Monad (Decided α) where
  pure b := ⟨.ok b, []⟩
  bind := andThen

@[simp]
theorem result_pure (b : β) : (pure b : Decided α β).result = .ok b := rfl

@[simp]
theorem result_fail (fault : Fault) : (fail fault : Decided α β).result = .error fault := rfl

@[simp]
theorem result_ofExcept (result : Except Fault β) :
    (ofExcept result : Decided α β).result = result := rfl

@[simp]
theorem result_bind (first : Decided α β) (next : β → Decided α γ) :
    (first >>= next).result = (first.result >>= fun b => (next b).result) := by
  show (andThen first next).result = _
  unfold andThen
  cases first.result <;> rfl

theorem result_ite {c : Prop} [Decidable c] (first second : Decided α β) :
    (if c then first else second).result = if c then first.result else second.result := by
  split <;> rfl

@[simp]
theorem ok_bind (b : β) (next : β → Except Fault γ) : (Except.ok b >>= next) = next b := rfl

@[simp]
theorem error_bind (fault : Fault) (next : β → Except Fault γ) :
    (Except.error fault >>= next) = .error fault := rfl

variable [Scalar α]

/-- Asks whether two coordinates are close. -/
def close (u v : α) : Decided α Bool := ⟨.ok (Scalar.close u v), [.close u v]⟩

/-- Asks whether a coordinate lies between two others. -/
def between (v a b : α) : Decided α Bool := ⟨.ok (Scalar.between v a b), [.between v a b]⟩

@[simp]
theorem result_close (u v : α) : (close u v).result = .ok (Scalar.close u v) := rfl

@[simp]
theorem result_between (v a b : α) : (between v a b).result = .ok (Scalar.between v a b) := rfl

/-- Asks whether two points are close; the second axis matters only if they are close on the
first. -/
def pointClose (x₁ y₁ x₂ y₂ : α) : Decided α Bool := do
  if ← close x₁ x₂ then close y₁ y₂ else return false

@[simp]
theorem result_pointClose (x₁ y₁ x₂ y₂ : α) :
    (pointClose x₁ y₁ x₂ y₂).result = .ok (Scalar.pointClose x₁ y₁ x₂ y₂) := by
  cases h : Scalar.close x₁ x₂ <;> simp [pointClose, Scalar.pointClose, h]

/-! ## Values -/

/-- The canonical form of a value. -/
def canonical : Value α → Decided α (Value α)
  | .segment s => do
    if ← pointClose s.x₁ s.y₁ s.x₂ s.y₂ then return .point ⟨s.x₁, s.y₁⟩
    else if ← close s.x₁ s.x₂ then
      return if lt s.y₁ s.y₂ then .segment s else .segment s.swap
    else return if lt s.x₂ s.x₁ then .segment s.swap else .segment s
  | v => return v

theorem result_canonical (v : Value α) : (canonical v).result = v.canonical.result := by
  cases v with
  | segment s =>
    simp only [canonical, Value.canonical, Value.amended?, Segment.amended?, Traced.result_call,
      Traced.result_pure, result_bind, result_pointClose, ok_bind]
    cases Scalar.pointClose s.x₁ s.y₁ s.x₂ s.y₂ with
    | true => rfl
    | false =>
      cases h : Scalar.close s.x₁ s.x₂ with
      | true => cases lt s.y₁ s.y₂ <;> simp [h]
      | false => cases lt s.x₂ s.x₁ <;> simp [h]
  | _ => rfl

/-- Where a point meets a point. -/
def pointAtPoint (p q : Point α) : Decided α (Value α) := do
  return if ← pointClose p.x p.y q.x q.y then .point p else .empty

/-- Where a point meets a line. -/
def pointAtStraight (p : Point α) : Straight α → Decided α (Value α)
  | .line l => do return if ← close p.y (l.slope * p.x + l.intercept) then .point p else .empty
  | .vertical v => do return if ← close p.x v.x then .point p else .empty

/-- Where a line meets a line. -/
def straightAtStraight : Straight α → Straight α → Decided α (Value α)
  | .line l, .line k => do
    if ← close l.slope k.slope then
      return if ← close l.intercept k.intercept then .line l else .empty
    else
      let x := (k.intercept - l.intercept) / (l.slope - k.slope)
      return .point ⟨x, l.slope * x + l.intercept⟩
  | .line l, .vertical v | .vertical v, .line l => return l.atVertical v
  | .vertical v, .vertical w => do return if ← close v.x w.x then .vertical v else .empty

/-- The line through a segment. -/
def lineThrough (s : Segment α) : Decided α (Straight α) := do
  if ← close s.x₁ s.x₂ then return .vertical ⟨s.x₁⟩
  else
    let slope := (s.y₂ - s.y₁) / (s.x₂ - s.x₁)
    return .line ⟨slope, s.y₁ - slope * s.x₁⟩

/-- What two segments of one line share, `first` being the one that starts first. -/
def overlap (upright : Bool) (first second : Segment α) : Decided α (Value α) := do
  if ← close (first.stop upright) (second.start upright) then return .point ⟨first.x₂, first.y₂⟩
  else if lt (first.stop upright) (second.start upright) then return .empty
  else if lt (second.stop upright) (first.stop upright) then return .segment second
  else return .segment ⟨second.x₁, second.y₁, first.x₂, first.y₂⟩

/-- A value clipped to a segment on whose line it lies. -/
def clip (s : Segment α) : Value α → Decided α (Value α)
  | .empty => return .empty
  | .point p => do
    if ← between p.x s.x₁ s.x₂ then
      return if ← between p.y s.y₁ s.y₂ then .point p else .empty
    else return .empty
  | .line _ | .vertical _ => return .segment s
  | .segment t => do
    let upright ← close t.x₁ t.x₂
    if lt (t.start upright) (s.start upright) then overlap upright t s else overlap upright s t
  | .placeholder => fail .unsupported

/-- Where something meets a segment: `meet` takes it to the line through the segment, and the
result is clipped. -/
def atSegment (s : Segment α) (meet : Straight α → Decided α (Value α)) :
    Decided α (Value α) := do
  let line ← lineThrough s
  let result ← meet line
  clip s result

/-- The intersection of two values. -/
def intersect : Value α → Value α → Decided α (Value α)
  | .empty, _ => return .empty
  | .placeholder, _ => fail .unsupported
  | _, .empty => return .empty
  | .segment s, .placeholder => atSegment s fun _ => fail .unsupported
  | _, .placeholder => fail .unsupported
  | .point p, .point q => pointAtPoint q p
  | .point p, .line l | .line l, .point p => pointAtStraight p (.line l)
  | .point p, .vertical v | .vertical v, .point p => pointAtStraight p (.vertical v)
  | .line l, .line k => straightAtStraight (.line k) (.line l)
  | .line l, .vertical v | .vertical v, .line l => straightAtStraight (.line l) (.vertical v)
  | .vertical v, .vertical w => straightAtStraight (.vertical w) (.vertical v)
  | .point p, .segment s | .segment s, .point p => atSegment s (pointAtStraight p)
  | .line l, .segment s | .segment s, .line l =>
    atSegment s fun k => straightAtStraight k (.line l)
  | .vertical v, .segment s | .segment s, .vertical v =>
    atSegment s fun k => straightAtStraight k (.vertical v)
  | .segment s, .segment t => atSegment s fun k => atSegment t fun m => straightAtStraight m k

/-- A value moved by an offset. -/
def shift (v : Value α) (dx dy : α) : Decided α (Value α) :=
  match v.shifted? dx dy with
  | some moved => return moved
  | none => fail .unsupported

/-! ## Expressions -/

/-- A tree with every literal in canonical form. -/
def normalize : Expr α → Decided α (Expr α)
  | .literal v span => do return .literal (← canonical v) span
  | .var name span => return .var name span
  | .intersect a b span => do return .intersect (← normalize a) (← normalize b) span
  | .bind name a b span => do return .bind name (← normalize a) (← normalize b) span
  | .shift dx dy a span => do return .shift dx dy (← normalize a) span
  | .placeholder => fail .unsupported

/-- The value of a tree in an environment. -/
def eval (env : Env α) : Expr α → Decided α (Value α)
  | .literal v _ => return v
  | .var name span => ofExcept (env.lookup name span)
  | .intersect a b _ => do
    let v ← eval env a
    let w ← eval env b
    intersect v w
  | .bind name a b _ => do
    let v ← eval env a
    eval (env.bind name v) b
  | .shift dx dy a _ => do
    let v ← eval env a
    shift v dx dy
  | .placeholder => fail .unsupported

/-- The value of a tree without free names, each literal in canonical form. -/
def evaluate (e : Expr α) : Decided α (Value α) := do
  let n ← normalize e
  eval .empty n

/-! ## Values are what they are without the list -/

theorem result_pointAtPoint (p q : Point α) : (pointAtPoint p q).result = .ok (p.atPoint q) := by
  simp [pointAtPoint, Point.atPoint]

theorem result_pointAtStraight (p : Point α) (l : Straight α) :
    (pointAtStraight p l).result = (p.intersectStraight l).result := by
  cases l with
  | line l => simp [pointAtStraight, Point.intersectStraight, Straight.meetPoint, Line.meetPoint,
      Point.meetLine, Point.atLine]
  | vertical v => simp [pointAtStraight, Point.intersectStraight, Straight.meetPoint,
      Vertical.meetPoint, Point.meetVertical, Point.atVertical]

/-- Where a line meets a line, without the list. -/
theorem result_straightAtLine (l : Straight α) (k : Line α) :
    (straightAtStraight l (.line k)).result = (l.meetLine k).result := by
  cases l with
  | line l =>
    cases h : Scalar.close l.slope k.slope <;>
      simp [straightAtStraight, Straight.meetLine, Line.meetLine, Line.atLine, h]
  | vertical v =>
    simp [straightAtStraight, Straight.meetLine, Vertical.meetLine, Line.meetVertical]

theorem result_straightAtVertical (l : Straight α) (v : Vertical α) :
    (straightAtStraight l (.vertical v)).result = (l.meetVertical v).result := by
  cases l with
  | line l => simp [straightAtStraight, Straight.meetVertical, Line.meetVertical]
  | vertical w =>
    simp [straightAtStraight, Straight.meetVertical, Vertical.meetVertical, Vertical.atVertical]

theorem result_lineThrough (s : Segment α) : (lineThrough s).result = .ok s.support := by
  cases h : Scalar.close s.x₁ s.x₂ <;> simp [lineThrough, Segment.support, Segment.isVertical, h]

theorem result_overlap (upright : Bool) (first second : Segment α) :
    (overlap upright first second).result = .ok (Segment.overlap upright first second) := by
  simp only [overlap, Segment.overlap, result_bind, result_close, ok_bind, result_ite, result_pure]
  split
  · rfl
  · split
    · rfl
    · split <;> rfl

theorem result_clip (s : Segment α) (v : Value α) : (clip s v).result = (v.clip s).result := by
  cases v with
  | point p =>
    cases h : Scalar.between p.x s.x₁ s.x₂ <;>
      simp [clip, Value.clip, Value.clipped?, Point.within, h]
  | segment t =>
    simp only [clip, Value.clip, Value.clipped?, Segment.common, Segment.isVertical,
      Segment.checkVertical, Traced.result_call, Traced.result_bind, Traced.result_pure, result_bind,
      result_close, ok_bind, result_ite, result_overlap]
    exact (apply_ite Except.ok _ _ _).symm
  | _ => rfl

theorem result_atSegment (s : Segment α) (v : Value α) (meet : Straight α → Decided α (Value α))
    (intersect : Straight α → Traced α (Value α))
    (h : ∀ l, (meet l).result = (intersect l).result) :
    (atSegment s meet).result = (s.meetBy v intersect).result := by
  simp only [atSegment, Segment.result_meetBy, result_bind, result_lineThrough, result_clip, h,
    ok_bind]

/-- A line meets a segment. -/
theorem result_meetSegment (s : Segment α) (l : Straight α) :
    (atSegment s fun k => straightAtStraight k l).result = (l.meetSegment s).result := by
  cases l with
  | line l =>
    refine result_atSegment s (.line l) _ _ fun k => ?_
    rw [Line.intersectStraight, Traced.result_call, result_straightAtLine]
  | vertical v =>
    refine result_atSegment s (.vertical v) _ _ fun k => ?_
    rw [Vertical.intersectStraight, Traced.result_call, result_straightAtVertical]

theorem result_intersect (a b : Value α) : (intersect a b).result = (a.intersect b).result := by
  rw [Value.intersect, Traced.result_call]
  unfold Value.dispatch
  rw [Traced.result_call]
  cases a with
  | empty => cases b <;> rfl
  | placeholder => cases b <;> rfl
  | point p =>
    cases b with
    | empty => rfl
    | placeholder => rfl
    | point q => rw [intersect, result_pointAtPoint]; rfl
    | line l => exact result_pointAtStraight p (.line l)
    | vertical v => exact result_pointAtStraight p (.vertical v)
    | segment s => exact result_atSegment s (.point p) _ _ (result_pointAtStraight p)
  | line l =>
    cases b with
    | empty => rfl
    | placeholder => rfl
    | point p => exact result_pointAtStraight p (.line l)
    | line k => exact result_straightAtLine (.line k) l
    | vertical v => rfl
    | segment s => exact result_meetSegment s (.line l)
  | vertical v =>
    cases b with
    | empty => rfl
    | placeholder => rfl
    | point p => exact result_pointAtStraight p (.vertical v)
    | line l => rfl
    | vertical w => exact result_straightAtVertical (.vertical w) v
    | segment s => exact result_meetSegment s (.vertical v)
  | segment s =>
    cases b with
    | empty => rfl
    | placeholder => exact result_atSegment s .placeholder _ Value.refuse fun _ => rfl
    | point p => exact result_atSegment s (.point p) _ _ (result_pointAtStraight p)
    | line l => exact result_meetSegment s (.line l)
    | vertical v => exact result_meetSegment s (.vertical v)
    | segment t =>
      refine result_atSegment s (.segment t) _ _ fun k => ?_
      rw [Segment.intersectStraight, Traced.result_call, result_meetSegment]

theorem result_shift (v : Value α) (dx dy : α) : (shift v dx dy).result = (v.shift dx dy).result := by
  rw [Value.shift, Traced.result_call, shift]
  cases v.shifted? dx dy <;> rfl

theorem result_normalize (e : Expr α) : (normalize e).result = e.canonical.result := by
  induction e with
  | var name span => rfl
  | placeholder => rfl
  | _ =>
    simp only [normalize, Expr.canonical, Traced.result_call, Traced.result_bind,
      Traced.result_pure, result_bind, result_pure, result_canonical, *]

theorem result_eval (env : Env α) (e : Expr α) : (eval env e).result = (e.eval env).result := by
  induction e generalizing env with
  | literal v span => rfl
  | var name span => simp [eval, Expr.eval]
  | intersect a b span iha ihb => simp [eval, Expr.eval, iha, ihb, result_intersect]
  | bind name a b span iha ihb => simp [eval, Expr.eval, iha, ihb]
  | shift dx dy a span ih => simp [eval, Expr.eval, ih, result_shift]
  | placeholder => rfl

theorem result_evaluate (e : Expr α) : (evaluate e).result = e.evaluate.result := by
  simp [evaluate, Expr.evaluate, Expr.normalize, Expr.evaluateIn, result_normalize, result_eval]

end Decided

end Planar
