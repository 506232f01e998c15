import Planar.Fault
import Planar.Token.Keyword

/-!
# Scope and validity

Which names of a tree are free, and whether the tree keeps the rules of the language: its numbers
are finite, its bindings have proper names, and each name is used within the body of a binding.
-/

namespace Planar

/-- The first broken rule of a tree. -/
inductive Violation where
  /-- A literal has a coordinate that is infinite or no number. -/
  | coordinate (kind : String) (number : Double) (span : Option Span)
  /-- A shift has an offset that is infinite or no number. -/
  | offset (number : Double) (span : Option Span)
  /-- A name is used outside every binding of it. -/
  | unbound (name : String) (span : Option Span)
  /-- A binding has an empty or reserved name. -/
  | improperName (name : String) (span : Option Span)
  /-- A literal holds the placeholder. -/
  | noCoordinates
  /-- A node is not filled in. -/
  | unknownNode
deriving DecidableEq

namespace Violation

/-- The message about a number that should be finite. -/
def finiteMessage (what : String) (number : Double) : String :=
  what ++ " must be finite (got " ++ String.ofList number.chars ++ ")"

/-- What a violation says. -/
def message : Violation → String
  | coordinate kind number span =>
    Span.markOf span ++ finiteMessage (kind ++ " coordinates") number
  | offset number span => Span.markOf span ++ finiteMessage "shift offsets" number
  | unbound name span =>
    Span.markOf span ++ "variable " ++ Text.quoted name ++ " is not bound by any let"
  | improperName name span => Span.markOf span ++ "invalid binding name " ++ Text.quoted name
  | noCoordinates => Fault.message .noCoordinates
  | unknownNode => unknownNodeMessage

end Violation

namespace Expr

/-- The free names of a tree, from left to right and as often as they occur. -/
def free {α : Type} : Expr α → List String
  | literal _ _ => []
  | var name _ => [name]
  | intersect a b _ => free a ++ free b
  | bind name a b _ => free a ++ (free b).filter (· ≠ name)
  | shift _ _ a _ => free a
  | placeholder => []

/-- Whether every node of a tree is filled in. -/
def isComplete {α : Type} : Expr α → Bool
  | literal _ _ | var _ _ => true
  | intersect a b _ | bind _ a b _ => isComplete a && isComplete b
  | shift _ _ a _ => isComplete a
  | placeholder => false

/-- The free names of a complete tree, each once and in increasing order. -/
def freeNames {α : Type} (e : Expr α) : Except Violation (List String) :=
  if e.isComplete then .ok ((free e).eraseDups.mergeSort fun a b => !decide (b < a))
  else .error .unknownNode

/-- The first of some numbers that is not finite. -/
def firstNonFinite? (xs : List Float) : Option Double :=
  (xs.find? fun x => !x.isFinite).map Double.ofFloat

/-- Fails with `violation` at the first of some numbers that is not finite. -/
def requireFinite (xs : List Float) (violation : Double → Violation) : Except Violation Unit :=
  match firstNonFinite? xs with
  | some number => .error (violation number)
  | none => .ok ()

/-- Checks a tree in source order, `bound` being the names in scope. -/
def check (bound : List String) : Expr Float → Except Violation Unit
  | literal v span =>
    match v.coordinates? with
    | some cs => requireFinite cs (.coordinate v.kind · span)
    | none => .error .noCoordinates
  | var name span => if name ∈ bound then .ok () else .error (.unbound name span)
  | shift dx dy a span => do
    requireFinite [dx, dy] (.offset · span)
    check bound a
  | intersect a b _ => do
    check bound a
    check bound b
  | bind name a b span => do
    if name.isEmpty || (Keyword.ofWord? name).isSome then throw (.improperName name span)
    -- A binding is not in scope in its own value.
    check bound a
    check (name :: bound) b
  | placeholder => .error .unknownNode

/-- Checks a whole program. -/
def validate (e : Expr Float) : Except Violation Unit := check [] e

end Expr

end Planar
