import Planar.Value

/-!
# Expressions

The tree of a program: values, names, intersections, bindings and shifts. A node read from source
text knows where it began; positions serve messages only. The placeholder stands for a node that
has not been filled in.
-/

namespace Planar

/-- A place in source text. In a text that is read, lines and columns count from one; a tree that is
built otherwise may name any place. -/
structure Span where
  line : Int
  col : Int
deriving DecidableEq

/-- An expression whose coordinates are of type `α`. -/
inductive Expr (α : Type) where
  | literal (value : Value α) (span : Option Span)
  | var (name : String) (span : Option Span)
  | intersect (first second : Expr α) (span : Option Span)
  | bind (name : String) (bound body : Expr α) (span : Option Span)
  | shift (dx dy : α) (body : Expr α) (span : Option Span)
  | placeholder
deriving DecidableEq

namespace Expr

variable {α : Type}

/-- Where a node began, if that is known. -/
def span? : Expr α → Option Span
  | literal _ span | var _ span | intersect _ _ span | bind _ _ _ span | shift _ _ _ span => span
  | placeholder => none

/-- Whether two trees have the same shape and names, and agreeing literals and offsets. Positions
are not compared. -/
def agree (sameValue : Value α → Value α → Bool) (same : α → α → Bool) : Expr α → Expr α → Bool
  | literal v _, literal w _ => sameValue v w
  | var x _, var y _ => x == y
  | intersect a b _, intersect c d _ => agree sameValue same a c && agree sameValue same b d
  | bind x a b _, bind y c d _ =>
    x == y && agree sameValue same a c && agree sameValue same b d
  | shift u v a _, shift w x b _ => same u w && same v x && agree sameValue same a b
  | placeholder, placeholder => true
  | _, _ => false

/-- Whether two trees are equal up to positions. -/
def equal [Scalar α] (a b : Expr α) : Bool := agree Value.equal Scalar.eq a b

/-- Whether every literal of a tree is one of the five kinds of set and no node is missing. -/
def IsConcrete : Expr α → Prop
  | literal v _ => v.IsConcrete
  | var _ _ => True
  | intersect a b _ | bind _ a b _ => a.IsConcrete ∧ b.IsConcrete
  | shift _ _ a _ => a.IsConcrete
  | placeholder => False

end Expr

end Planar
