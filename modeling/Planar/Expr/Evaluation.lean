import Planar.Expr.Canonical
import Planar.Value.Intersection

/-!
# Evaluation

The value of a tree in an environment. Both parts of an intersection are evaluated from left to
right, and a bound expression is evaluated once, before the body that may use it.
-/

namespace Planar

open Traced

variable {α : Type} [Scalar α]

namespace Expr

/-- The run that evaluates a node in an environment. -/
def eval (env : Env α) : Expr α → Traced α (Value α)
  | e@(literal v _) => call (.ofNode .literal .evaluate) [.expr e, .of (.env env)] .value (pure v)
  | e@(var name span) =>
    call (.ofNode .var .evaluate) [.expr e, .of (.env env)] .value
      (ofExcept (env.lookup name span))
  | e@(intersect a b _) =>
    call (.ofNode .intersect .evaluate) [.expr e, .of (.env env)] .value do
      let v ← eval env a
      let w ← eval env b
      v.intersect w
  | e@(bind name a b _) =>
    call (.ofNode .bind .evaluate) [.expr e, .of (.env env)] .value do
      let v ← eval env a
      eval (env.bind name v) b
  | e@(shift dx dy a _) =>
    call (.ofNode .shift .evaluate) [.expr e, .of (.env env)] .value do
      let v ← eval env a
      v.shift dx dy
  | placeholder =>
    call (.ofNode .missing .evaluate) [.expr placeholder, .of (.env env)] .value
      (fail .unsupported)

/-- The run that evaluates a normalized tree, in the empty environment unless one is given. -/
def evaluateIn (e : Expr α) (env? : Option (Env α)) : Traced α (Value α) :=
  call (.task .evalExpr) (.expr e :: env?.toList.map (.of <| .env ·)) .value
    (e.eval (env?.getD .empty))

/-- The run that normalizes a tree and evaluates it in the empty environment. -/
def evaluate (e : Expr α) : Traced α (Value α) :=
  call (.task .evaluate) [.expr e] .value do
    let n ← e.normalize
    n.evaluateIn (some .empty)

/-- The run that lists the literals of a tree in source order. -/
def literals : Expr α → Traced α (List (Value α))
  | e@(literal v _) => call (.task .literals) [.expr e] .values (pure [v])
  | e@(var _ _) => call (.task .literals) [.expr e] .values (pure [])
  | e@(shift _ _ a _) => call (.task .literals) [.expr e] .values (literals a)
  | e@(intersect a b _) | e@(bind _ a b _) =>
    call (.task .literals) [.expr e] .values do
      return (← literals a) ++ (← literals b)
  | placeholder => call (.task .literals) [.expr placeholder] .values (fail .unknownNode)

end Expr

end Planar
