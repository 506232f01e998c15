import Planar.CommandLine
import Planar.Proofs.Plane.Dispatch

/-!
# Runs with another division

Nothing is divided by zero in a run: whatever another division makes of zero divisors, a run with it
is the same run. Evaluation divides where it intersects values, and drawing also where it finds the
crossing of a line with the horizontal axis; normalizing, listing and writing numbers do not divide.

* `Expr.normalize_dividing`, `Expr.evaluateIn_dividing` — normalizing and evaluating a tree;
* `document_dividing` — drawing a document;
* `CommandLine.runWith_dividing` — a whole run, with all it prints, logs and writes.
-/

namespace Planar

open Scalar Traced

/-! ## Steps that do not divide -/

section NoQuotients

variable {α : Type} [Scalar α] (quotient : α → α → α)

theorem Expr.canonical_dividing (e : Expr α) :
    @canonical α (.dividing quotient) e = e.canonical := by
  induction e with
  | literal v span => rfl
  | var name span => rfl
  | intersect a b span iha ihb => simp only [canonical, iha, ihb]
  | bind name a b span iha ihb => simp only [canonical, iha, ihb]
  | shift dx dy a span ih => simp only [canonical, ih]
  | placeholder => rfl

theorem Expr.normalize_dividing (e : Expr α) :
    @normalize α (.dividing quotient) e = e.normalize :=
  congrArg (Traced.call _ _ _) (e.canonical_dividing quotient)

theorem Shape.commands_dividing (shape : Shape α) (label : String) (style : Style)
    (decimals : Int) : @Shape.commands α (.dividing quotient) shape label style decimals =
      shape.commands label style decimals := by
  cases shape <;> rfl

end NoQuotients

/-! ## Steps that divide -/

section Quotients

variable {quotient : Float → Float → Float}
  (h : ∀ x y, eq y zero = false → quotient x y = x / y)
include h

theorem Value.intersect_dividing_of_ne_zero (a b : Value Float) :
    @intersect Float (.dividing quotient) a b = a.intersect b :=
  intersect_dividing (quotient_sub h) a b

theorem Expr.eval_dividing (e : Expr Float) (env : Env Float) :
    @eval Float (.dividing quotient) env e = e.eval env := by
  induction e generalizing env with
  | literal v span => rfl
  | var name span => rfl
  | intersect a b span iha ihb =>
    simp only [eval, iha, ihb, Value.intersect_dividing_of_ne_zero h]
  | bind name a b span iha ihb => simp only [eval, iha, ihb]
  | shift dx dy a span ih =>
    simp only [eval, ih]
    rfl
  | placeholder => rfl

theorem Expr.evaluateIn_dividing (e : Expr Float) (env? : Option (Env Float)) :
    @evaluateIn Float (.dividing quotient) e env? = e.evaluateIn env? :=
  congrArg (Traced.call _ _ _) (e.eval_dividing h _)

/-- The crossing of a line with the horizontal axis is an anchor only if the slope is not zero. -/
theorem Value.anchors?_dividing (v : Value Float) :
    @anchors? Float (.dividing quotient) v = v.anchors? := by
  cases v with
  | line l =>
    refine congrArg (fun more => some ((⟨zero, l.intercept⟩ : Point Float) :: more)) ?_
    by_cases hslope : eq l.slope zero = true
    · rw [if_pos hslope]
      exact if_pos hslope
    · rw [if_neg hslope, ← h _ _ (Bool.not_eq_true _ ▸ hslope)]
      exact if_neg hslope
  | _ => rfl

theorem Value.anchors_dividing (v : Value Float) :
    @anchors Float (.dividing quotient) v = v.anchors := by
  unfold anchors
  rw [v.anchors?_dividing h]

theorem viewport_dividing (values : List (Value Float)) (settings : Settings Float) :
    @viewport Float (.dividing quotient) values settings = viewport values settings := by
  unfold viewport
  rw [funext (Value.anchors_dividing h)]
  rfl

theorem crossings_dividing (v : Value Float) (hits : List (Point Float))
    (sides : List (Segment Float)) :
    @crossings Float (.dividing quotient) v hits sides = crossings v hits sides := by
  induction sides generalizing hits with
  | nil => rfl
  | cons side sides ih =>
    simp only [crossings, Value.intersect_dividing_of_ne_zero h, Value.anchors_dividing h, ih]
    rfl

theorem clipToWindow_dividing (v : Value Float) (w : Window Float) :
    @clipToWindow Float (.dividing quotient) v w = clipToWindow v w := by
  simp only [clipToWindow, crossings_dividing h]
  rfl

theorem Value.shape_dividing (v : Value Float) (w : Window Float) :
    @shape Float (.dividing quotient) v w = v.shape w := by
  unfold shape
  simp only [Value.anchors_dividing h, clipToWindow_dividing h]

theorem drawValue_dividing (label : String) (v : Value Float) (style : Style) (w : Window Float)
    (decimals : Int) : @drawValue Float (.dividing quotient) label v style w decimals =
      drawValue label v style w decimals := by
  unfold drawValue
  simp only [v.shape_dividing h, Shape.commands_dividing]

theorem drawValues_dividing (highlight : List String) (w : Window Float) (decimals : Int)
    (entries : List (String × Value Float)) :
    @drawValues Float (.dividing quotient) highlight w decimals entries =
      drawValues highlight w decimals entries := by
  induction entries with
  | nil => rfl
  | cons entry entries ih => simp only [drawValues, drawValue_dividing h, ih]

theorem picture_dividing (current : Settings Float) (entries : List (String × Value Float))
    (highlight : List String) (settings? : Option (Settings Float)) :
    @picture Float (.dividing quotient) current entries highlight settings? =
      picture current entries highlight settings? := by
  unfold picture
  simp only [viewport_dividing h, drawValues_dividing h]
  rfl

theorem document_dividing (current : Settings Float) (entries : List (String × Value Float))
    (highlight : List String) (title : Option String) (settings? : Option (Settings Float)) :
    @document Float (.dividing quotient) current entries highlight title settings? =
      document current entries highlight title settings? := by
  unfold document
  rw [picture_dividing h]

/-! ## Whole runs -/

namespace CommandLine

theorem evaluateText_dividing (level : Level) (args : Arguments) (text : String) :
    @evaluateText (.dividing quotient) level args text = evaluateText level args text := by
  unfold evaluateText
  simp only [Expr.normalize_dividing, Expr.evaluateIn_dividing h]

theorem drawDocument_dividing (level : Level) (args : Arguments)
    (entries : List (String × Value Float)) :
    @drawDocument (.dividing quotient) level args entries = drawDocument level args entries :=
  congrArg (fun run => Logged.ofTraced drawingFaults level run) (document_dividing h _ _ _ _ _)

theorem planText_dividing (level : Level) (args : Arguments) (text : String) :
    @planText (.dividing quotient) level args text = planText level args text := by
  unfold planText planPicture
  simp only [evaluateText_dividing h, drawDocument_dividing h]

/-- A run is the same with any other division that only differs in what it makes of zero
divisors. -/
theorem runWith_dividing (store : Store) (level : Level) (args : Arguments) :
    @runWith (.dividing quotient) store level args = runWith store level args :=
  congrArg (fun rest => (Plan.read args.path rest).on store)
    (funext fun _ => planText_dividing h level args _)

end CommandLine

end Quotients

end Planar
