import Planar.Value.Canonical

/-!
# Canonical expressions

Before a tree is evaluated, every literal in it is put in canonical form. Nothing else changes.
-/

namespace Planar

open Traced

variable {α : Type} [Scalar α]

namespace Expr

/-- The run that puts every literal of a tree in canonical form. -/
def canonical : Expr α → Traced α (Expr α)
  | e@(literal v span) =>
    call (.ofNode .literal .canonical) [.expr e] .expr do
      return literal (← v.canonical) span
  | e@(var _ _) => call (.ofNode .var .canonical) [.expr e] .expr (pure e)
  | e@(intersect a b span) =>
    call (.ofNode .intersect .canonical) [.expr e] .expr do
      return intersect (← canonical a) (← canonical b) span
  | e@(bind name a b span) =>
    call (.ofNode .bind .canonical) [.expr e] .expr do
      return bind name (← canonical a) (← canonical b) span
  | e@(shift dx dy a span) =>
    call (.ofNode .shift .canonical) [.expr e] .expr do
      return shift dx dy (← canonical a) span
  | placeholder =>
    call (.ofNode .missing .canonical) [.expr placeholder] .expr (fail .unsupported)

/-- The run that normalizes a tree. -/
def normalize (e : Expr α) : Traced α (Expr α) :=
  call (.task .normalize) [.expr e] .expr e.canonical

/-- Whether normalizing gives back the very node: names are kept, and so are literals that are in
canonical form; every other node is built anew. -/
def isKept : Expr α → Bool
  | literal v _ => v.amended?.isNone
  | var _ _ => true
  | _ => false

/-- Whether every literal of a tree is in canonical form, so that normalizing changes nothing. -/
def isCanonical : Expr α → Bool
  | literal v _ => v.amended?.isNone
  | var _ _ => true
  | intersect a b _ | bind _ a b _ => isCanonical a && isCanonical b
  | shift _ _ a _ => isCanonical a
  | placeholder => true

end Expr

end Planar
