import Planar.Fault

/-!
# Constructor terms

A value or a tree as the term that builds it, with every field named. Traces and the demonstration
show trees this way; positions are left out.
-/

namespace Planar

/-- Texts with commas between them. -/
def commaList (texts : List String) : String := ", ".intercalate texts

/-- A term from its head and its named fields. -/
def termText (head : String) (fields : List (String × String)) : String :=
  head ++ "(" ++ commaList (fields.map fun (key, text) => key ++ "=" ++ text) ++ ")"

/-- Some texts as a tuple; a single one is followed by a comma. -/
def tupleTerm : List String → String
  | [s] => "(" ++ s ++ ",)"
  | ss => "(" ++ commaList ss ++ ")"

/-- The term that builds a value. -/
def Value.term : Value Float → String
  | empty => termText "Empty" []
  | point p => termText "Point" [("x", floatText p.x), ("y", floatText p.y)]
  | line l => termText "Line" [("m", floatText l.slope), ("b", floatText l.intercept)]
  | vertical v => termText "VerticalLine" [("x", floatText v.x)]
  | segment s =>
    termText "Segment"
      [("x1", floatText s.x₁), ("y1", floatText s.y₁), ("x2", floatText s.x₂),
        ("y2", floatText s.y₂)]
  | placeholder => termText "GeometryValue" []

/-- The term that builds a tree. -/
def Expr.term : Expr Float → String
  | literal v _ => termText "Literal" [("value", v.term)]
  | var name _ => termText "Var" [("name", Text.quoted name)]
  | intersect a b _ => termText "Intersect" [("e1", term a), ("e2", term b)]
  | bind name a b _ =>
    termText "Let" [("name", Text.quoted name), ("e1", term a), ("e2", term b)]
  | shift dx dy a _ =>
    termText "Shift" [("dx", floatText dx), ("dy", floatText dy), ("e", term a)]
  | placeholder => termText "Expression" []

end Planar
