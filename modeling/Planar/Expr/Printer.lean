import Planar.Fault

/-!
# Source text of expressions

`Expr.line` writes a tree on one line of source text. `Expr.program` gives every binding on the
outer spine a line of its own and indents its body.
-/

namespace Planar

/-- A number as source text. -/
def formatNumber (x : Float) : Except Fault String :=
  match numberText? x with
  | some text => .ok text
  | none => .error (.nonFinite (.ofFloat x))

/-- A value as source text. -/
def Value.format (v : Value Float) : Except Fault String := do
  let cs ← v.coordinates
  if cs.isEmpty then return v.kind
  let texts ← cs.mapM formatNumber
  return v.kind ++ "(" ++ ", ".intercalate texts ++ ")"

namespace Expr

/-- A tree as one line of source text. -/
def line : Expr Float → Except Fault String
  | literal v _ => v.format
  | var name _ => .ok name
  | intersect a b _ => do
    let first ← line a
    let second ← line b
    return "intersect(" ++ first ++ ", " ++ second ++ ")"
  | shift dx dy a _ => do
    let x ← formatNumber dx
    let y ← formatNumber dy
    let body ← line a
    return "shift(" ++ x ++ ", " ++ y ++ ", " ++ body ++ ")"
  | bind name a b _ => do
    let bound ← line a
    let body ← line b
    return "let " ++ name ++ " = " ++ bound ++ " in " ++ body
  | placeholder => .error .unknownNode

/-- The lines of a tree, the first of them after `margin`. -/
def programLines (indent margin : String) : Expr Float → Except Fault (List String)
  | bind name a b _ => do
    let bound ← line a
    let body ← programLines indent (margin ++ indent) b
    return (margin ++ "let " ++ name ++ " = " ++ bound ++ " in") :: body
  | e => do
    return [margin ++ (← line e)]

/-- A tree as source text of several lines, each ended by a line feed. -/
def program (e : Expr Float) (indent : String) : Except Fault String := do
  let lines ← programLines indent "" e
  return "\n".intercalate lines ++ "\n"

/-- The indentation of a body unless another is asked for. -/
def defaultIndent : String := "  "

end Expr

end Planar
