/-!
# Labels as markup

A label may hold mathematics between single or double dollar signs. These are delimiters unless a
backslash stands before them, and what lies between a pair of equal ones is kept as it is. In the
rest of a label every character with a meaning of its own in LaTeX is escaped.
-/

namespace Planar.Markup

/-- A mathematics delimiter: one dollar sign or two. -/
inductive Delimiter where
  | single | double
deriving DecidableEq

/-- The text of a delimiter. -/
def Delimiter.chars : Delimiter → List Char
  | single => ['$']
  | double => ['$', '$']

/-- A character of plain text. -/
def escapeChar : Char → List Char
  | '\\' => "\\textbackslash\x7b\x7d".toList
  | '&' => ['\\', '&']
  | '%' => ['\\', '%']
  | '#' => ['\\', '#']
  | '_' => ['\\', '_']
  | '\x7b' => ['\\', '\x7b']
  | '\x7d' => ['\\', '\x7d']
  | '~' => "\\textasciitilde\x7b\x7d".toList
  | '^' => "\\textasciicircum\x7b\x7d".toList
  | c => [c]

/-- Plain text, character by character. -/
def escapeText (cs : List Char) : List Char := cs.flatMap escapeChar

/-- The delimiter at the front of a text, if no backslash stands before it, and what follows. -/
def delimiter? (afterBackslash : Bool) : List Char → Option (Delimiter × List Char)
  | '$' :: rest =>
    -- Two signs are taken together wherever they stand together.
    if afterBackslash then none
    else
      match rest with
      | '$' :: rest => some (.double, rest)
      | rest => some (.single, rest)
  | _ => none

theorem length_lt_of_delimiter? {afterBackslash : Bool} {cs rest : List Char} {d : Delimiter}
    (h : delimiter? afterBackslash cs = some (d, rest)) : rest.length < cs.length := by
  unfold delimiter? at h
  split at h
  · split at h
    · simp at h
    · split at h <;> obtain ⟨rfl, rfl⟩ := Prod.mk.inj (Option.some.inj h) <;>
        simp only [List.length_cons] <;> omega
  · simp at h

/-- The open delimiter after a further one: it opens mathematics, closes it if it is equal to the
open one, and is part of it otherwise. -/
def toggle (opened : Option Delimiter) (d : Delimiter) : Option Delimiter :=
  match opened with
  | none => some d
  | some other => if other = d then none else some other

/-- Escapes a text of which an earlier part is already written: `opened` is the open delimiter, and
`afterBackslash` tells whether a backslash comes just before. -/
def escapeFrom (opened : Option Delimiter) (afterBackslash : Bool) (cs : List Char) : List Char :=
  match _h : delimiter? afterBackslash cs with
  | some (d, rest) => d.chars ++ escapeFrom (toggle opened d) false rest
  | none =>
    match cs with
    | [] => []
    | c :: rest =>
      (if opened.isSome then [c] else escapeChar c) ++ escapeFrom opened (c == '\\') rest
termination_by cs.length
decreasing_by
  · exact length_lt_of_delimiter? _h
  · simp

/-- A label as markup. -/
def escape (s : String) : String := String.ofList (escapeFrom none false s.toList)

end Planar.Markup
