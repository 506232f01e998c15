import Planar.Expr.Evaluation
import Planar.Expr.Parser
import Planar.Expr.Printer
import Planar.Expr.Scope
import Planar.Expr.Term

/-!
# Reference text and demonstration

What a user is told about the language, and a small program taken through every stage.
-/

namespace Planar.Reference

/-- The grammar of the language. -/
def grammar : String :=
  "```\n" ++
  "Program  := Expr\n" ++
  "Expr     := Value\n" ++
  "          | 'intersect' '(' Expr ',' Expr ')'\n" ++
  "          | 'shift' '(' Number ',' Number ',' Expr ')'\n" ++
  "          | 'let' ID '=' Expr 'in' Expr\n" ++
  "          | ID\n" ++
  "Value    := 'empty'\n" ++
  "          | 'point' '(' Number ',' Number ')'\n" ++
  "          | 'line' '(' Number ',' Number ')'\n" ++
  "          | 'vline' '(' Number ')'\n" ++
  "          | 'segment' '(' Number ',' Number ',' Number ',' Number ')'\n" ++
  "Number   := ['-'] NUMBER\n" ++
  "Comment  := '#' \x7b any character \x7d end-of-line\n" ++
  "```"

/-- The meaning of the language. -/
def meaning : String :=
  "- point(x, y) is a single point; line(m, b) is y = m*x + b; " ++
  "vline(x) is the vertical line at x.\n" ++
  "- segment(x1, y1, x2, y2) is closed; endpoints closer than 0.00001 make it a point.\n" ++
  "- intersect(a, b) is the set of shared points; 'empty' when there are none.\n" ++
  "- shift(dx, dy, e) translates e by (dx, dy).\n" ++
  "- let name = e1 in e2 evaluates e2 with name bound to e1; " ++
  "inner bindings shadow outer ones.\n" ++
  "- Keywords are case-insensitive and reserved; names are case-sensitive."

/-- The reference, with the grammar if it is asked for. -/
def text (withGrammar : Bool) : String :=
  "\n".intercalate <|
    ["GEOEXPR LANGUAGE", "", meaning] ++
    if withGrammar then ["", "SYNTAX REFERENCE (BNF)", grammar] else []

/-- A program to demonstrate the language with. -/
def sample : String :=
  "\n" ++
  "# the diagonal of the unit square, drawn backwards, against the x axis shifted up\n" ++
  "let d = segment(1, 1, 0, 0) in\n" ++
  "let axis = line(0, 0) in\n" ++
  "intersect(d, shift(0, 0.5, axis))\n"

/-- What the demonstration of a program says; nothing if the program fails. -/
def demonstration? (source : String) : Option String := do
  let e ← (Expr.parse source).toOption
  let _ ← e.validate.toOption
  let n ← e.normalize.result.toOption
  let listing ← (n.program Expr.defaultIndent).toOption
  let v ← e.evaluate.result.toOption
  let result ← v.format.toOption
  return "Parsed prog: " ++ e.term ++ "\n\n" ++ "Normalized prog:\n" ++ listing ++ "\n" ++
    "Result: " ++ result ++ "\n"

/-- What the demonstration says. -/
def demonstration : String := (demonstration? sample).getD ""

end Planar.Reference
