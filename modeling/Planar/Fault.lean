import Planar.Decimal.Layout
import Planar.Expr
import Planar.Text.Quoted

/-!
# Faults

What can go wrong while values are moved, met, evaluated, printed or drawn, and the words for it.
-/

namespace Planar

/-- The text that puts a place in front of a message. -/
def Span.mark (span : Span) : String :=
  "[line " ++ toString span.line ++ ", col " ++ toString span.col ++ "] "

/-- The mark of a place, or nothing where none is known. -/
def Span.markOf : Option Span → String
  | some span => span.mark
  | none => ""

/-- The message about a node that has not been filled in. -/
def unknownNodeMessage : String := "unknown expression kind " ++ Text.quoted ""

/-- The cause of a failed operation. -/
inductive Fault where
  /-- The placeholder takes no part in the operation. -/
  | unsupported
  /-- The placeholder has no coordinates. -/
  | noCoordinates
  /-- The placeholder has no anchors. -/
  | noAnchors
  /-- A tree that is printed or searched has a node that is not filled in. -/
  | unknownNode
  /-- A name has no value in the environment. -/
  | unbound (name : String) (span : Option Span)
  /-- A number to be printed is infinite or no number. -/
  | nonFinite (number : Double)
  /-- A number to be drawn is infinite or no number. -/
  | undrawable
  /-- The number of decimal places is negative. -/
  | negativePlaces
  /-- There are more decimal places than can be written. -/
  | tooManyPlaces
  /-- The number of decimal places is itself too long. -/
  | endlessPlaces
  /-- An array with several cells is neither true nor false. -/
  | ambiguousTruth
  /-- A routine was asked to fail. -/
  | asked
deriving DecidableEq

/-- The sorts of fault. Whoever runs an operation foresees faults of some sorts. -/
inductive FaultSort where
  /-- The operation is not defined. -/
  | undefined
  /-- Something of another type is needed. -/
  | type
  /-- A table lacks an entry. -/
  | key
  /-- A name has no value. -/
  | name
  /-- A value of the right type is not fit for the operation. -/
  | value
deriving DecidableEq

/-- The sort of a fault. -/
def Fault.sort : Fault → FaultSort
  | unsupported => .undefined
  | noCoordinates => .type
  | noAnchors => .key
  | unbound .. => .name
  | unknownNode | nonFinite _ | undrawable | negativePlaces | tooManyPlaces | endlessPlaces
  | ambiguousTruth | asked => .value

/-- What a fault says. -/
def Fault.message : Fault → String
  | unsupported => ""
  | noCoordinates => "must be called with a dataclass type or instance"
  | noAnchors => Text.quoted ""
  | unknownNode => unknownNodeMessage
  | unbound name span => Span.markOf span ++ "unbound variable " ++ Text.quoted name
  | nonFinite number => "cannot format non-finite number " ++ String.ofList number.chars
  | undrawable => "Cannot format non-finite float for TikZ output"
  | negativePlaces => "Format specifier missing precision"
  | tooManyPlaces => "precision too big"
  | endlessPlaces => "Too many decimal digits in format string"
  | ambiguousTruth =>
    "The truth value of an array with more than one element is ambiguous. " ++
      "Use a.any() or a.all()"
  | asked => "asked to fail"

/-- The coordinates of a value; the placeholder has none. -/
def Value.coordinates {α : Type} (v : Value α) : Except Fault (List α) :=
  match v.coordinates? with
  | some cs => .ok cs
  | none => .error .noCoordinates

/-- Whether two values have close coordinates; the placeholder cannot be asked. -/
def Value.checkClose {α : Type} [Scalar α] (a b : Value α) : Except Fault Bool := do
  let _ ← a.coordinates
  let _ ← b.coordinates
  return a.close b

end Planar
