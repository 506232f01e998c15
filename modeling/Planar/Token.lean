import Planar.Decimal.Numeral
import Planar.Fault
import Planar.Text.Lines
import Planar.Token.Keyword

/-!
# Tokens

Source text as a row of tokens: numerals, names and five marks. Each line is scanned from left to
right; blanks separate tokens, and a number sign starts a comment that runs to the end of the line.
Where a numeral or a name starts, the longest one is taken.
-/

namespace Planar

/-- The kinds of token. -/
inductive TokenKind where
  | number | name | leftParen | rightParen | comma | equal | dash
deriving DecidableEq

/-- The name of a kind of token. -/
def TokenKind.text : TokenKind → String
  | number => "NUMBER"
  | name => "ID"
  | leftParen => "LPAREN"
  | rightParen => "RPAREN"
  | comma => "COMMA"
  | equal => "EQUAL"
  | dash => "DASH"

/-- A token and where it begins. -/
structure Token where
  kind : TokenKind
  text : String
  span : Span
deriving DecidableEq

/-- Why a text is not a program. -/
inductive ParseFault where
  /-- A character starts no token. -/
  | unexpectedChar (c : Char) (span : Span)
  /-- There are no tokens. -/
  | emptyProgram
  /-- The tokens end where something else is needed. -/
  | endOfInput (wanted : String)
  /-- A token stands where something else is needed. -/
  | expected (wanted : String) (got : TokenKind) (span : Span)
  /-- A name stands where a keyword is needed. -/
  | expectedKeyword (keyword : Keyword) (got : String) (span : Span)
  /-- A numeral is too great for a double. -/
  | outOfRange (numeral : String) (span : Span)
  /-- A keyword stands where a name is needed. -/
  | reserved (word : String) (span : Span)
  /-- A keyword starts no expression. -/
  | unexpectedKeyword (word : String) (span : Span)
  /-- Tokens follow the end of the program. -/
  | trailing (text : String) (span : Span)
deriving DecidableEq

namespace ParseFault

/-- What a fault says. -/
def message : ParseFault → String
  | unexpectedChar c span =>
    span.mark ++ "unexpected character: " ++ Text.quoted (String.singleton c)
  | emptyProgram => "empty program: expected expression"
  | endOfInput wanted => "Unexpected end of input: expected " ++ wanted
  | expected wanted got span => span.mark ++ "expected " ++ wanted ++ ", got " ++ got.text
  | expectedKeyword keyword got span =>
    span.mark ++ "expected keyword '" ++ keyword.text ++ "', got '" ++ got ++ "'"
  | outOfRange numeral span =>
    span.mark ++ "number " ++ Text.quoted numeral ++ " is out of range"
  | reserved word span =>
    span.mark ++ "reserved word '" ++ word ++ "' cannot be used as a name"
  | unexpectedKeyword word span => span.mark ++ "unexpected keyword '" ++ word ++ "'"
  | trailing text span => span.mark ++ "unexpected token " ++ Text.quoted text

end ParseFault

namespace Token

/-- Whether `c` may start a name: an ASCII letter or an underscore. -/
def startsName (c : Char) : Bool := c.isAlpha || c == '_'

/-- Whether `c` may go on with a name: an ASCII letter or digit or an underscore. -/
def continuesName (c : Char) : Bool := c.isAlphanum || c == '_'

/-- The longest name at the front of a text, and what follows it. -/
def scanName : List Char → Option (List Char × List Char)
  | c :: cs =>
    if startsName c then some (c :: cs.takeWhile continuesName, cs.dropWhile continuesName)
    else none
  | [] => none

/-- Scanning loses nothing: the name and what follows it are the text. -/
theorem append_of_scanName {cs name rest : List Char} (h : scanName cs = some (name, rest)) :
    name ++ rest = cs := by
  unfold scanName at h
  split at h
  · split at h
    · obtain ⟨rfl, rfl⟩ := Prod.mk.inj (Option.some.inj h)
      simp
    · simp at h
  · simp at h

theorem length_lt_of_scanName {cs name rest : List Char} (h : scanName cs = some (name, rest)) :
    rest.length < cs.length := by
  unfold scanName at h
  split at h
  · next c cs =>
    split at h
    · obtain ⟨rfl, rfl⟩ := Prod.mk.inj (Option.some.inj h)
      have := (List.dropWhile_suffix (l := cs) continuesName).length_le
      simp only [List.length_cons]
      omega
    · simp at h
  · simp at h

/-- The kind of token that a mark is. -/
def markKind? : Char → Option TokenKind
  | '(' => some .leftParen
  | ')' => some .rightParen
  | ',' => some .comma
  | '=' => some .equal
  | '-' => some .dash
  | _ => none

/-- Whether `c` separates tokens within a line. -/
def isGap (c : Char) : Bool := c == ' ' || c == '\t' || c == '\r'

/-- The tokens of the rest of line `line` from column `col` on. -/
def scanLine (line col : Nat) : List Char → Except ParseFault (List Token)
  | [] => .ok []
  | c :: cs =>
    if c = '#' then .ok []
    else if isGap c then scanLine line (col + 1) cs
    else
      -- A digit never starts a name, so the order of these two attempts does not matter.
      match _hnumber : Numeral.scan (c :: cs) with
      | some (n, rest) => do
        let more ← scanLine line (col + n.chars.length) rest
        return ⟨.number, String.ofList n.chars, ⟨line, col⟩⟩ :: more
      | none =>
        match _hname : scanName (c :: cs) with
        | some (name, rest) => do
          let more ← scanLine line (col + name.length) rest
          return ⟨.name, String.ofList name, ⟨line, col⟩⟩ :: more
        | none =>
          match markKind? c with
          | some kind => do
            let more ← scanLine line (col + 1) cs
            return ⟨kind, String.singleton c, ⟨line, col⟩⟩ :: more
          | none => .error (.unexpectedChar c ⟨line, col⟩)
termination_by cs => cs.length
decreasing_by
  · simp
  · exact Numeral.length_lt_of_scan _hnumber
  · exact length_lt_of_scanName _hname
  · simp

/-- The tokens of some lines, the first of which has number `line`. -/
def scanLines (line : Nat) : List (List Char) → Except ParseFault (List Token)
  | [] => .ok []
  | cs :: more => do
    let tokens ← scanLine line 1 cs
    let others ← scanLines (line + 1) more
    return tokens ++ others

/-- The tokens of a text. -/
def scan (text : String) : Except ParseFault (List Token) := scanLines 1 (Text.lines text.toList)

end Token

end Planar
