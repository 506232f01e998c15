/-!
# Keywords

The reserved words of the language. Letter case does not matter in them.
-/

namespace Planar

/-- A reserved word. -/
inductive Keyword where
  | empty | point | line | vline | segment | intersect | shift | «let» | «in»
deriving DecidableEq

namespace Keyword

/-- A keyword in small letters. -/
def text : Keyword → String
  | empty => "empty"
  | point => "point"
  | line => "line"
  | vline => "vline"
  | segment => "segment"
  | intersect => "intersect"
  | shift => "shift"
  | «let» => "let"
  | «in» => "in"

/-- Every keyword. -/
def all : List Keyword :=
  [empty, point, line, vline, segment, intersect, shift, «let», «in»]

/-- The keyword that a word is, in any letter case. -/
def ofWord? (word : String) : Option Keyword :=
  let small := String.ofList (word.toList.map Char.toLower)
  all.find? (·.text == small)

theorem ofWord?_text (k : Keyword) : ofWord? k.text = some k := by
  cases k <;> decide +kernel

end Keyword

end Planar
