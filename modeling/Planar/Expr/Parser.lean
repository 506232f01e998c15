import Planar.Diagnostic
import Planar.Token

/-!
# Parsing

A program is one expression. The parser reads tokens from left to right and looks one token ahead.
Every step takes at least one token off the row and says so in its type, which is why parsing ends.
-/

namespace Planar

/-- A shorter row of tokens. -/
abbrev Rest (ts : List Token) : Type := { rest : List Token // rest.length < ts.length }

/-- What a step of the parser yields: something it read and the tokens that are left. -/
abbrev Step (β : Type) (ts : List Token) : Type := Except ParseFault (β × Rest ts)

namespace Parser

/-- Takes a token of the given kind. -/
def expect (kind : TokenKind) : (ts : List Token) → Step Token ts
  | t :: rest =>
    if t.kind = kind then .ok (t, ⟨rest, by simp⟩)
    else .error (.expected kind.text t.kind t.span)
  | [] => .error (.endOfInput kind.text)

/-- The double that a numeral writes. -/
def numeralValue (text : String) : Float :=
  match Numeral.ofChars? text.toList with
  | some n => n.toFloat
  | none => Scalar.zero

/-- Takes a numeral, which must be in the range of doubles. -/
def magnitude (ts : List Token) : Step Float ts := do
  let ⟨t, rest⟩ ← expect .number ts
  let x := numeralValue t.text
  if x.isFinite then return (x, rest) else throw (.outOfRange t.text t.span)

/-- Takes a number: a numeral after an optional dash. -/
def number : (ts : List Token) → Step Float ts
  | t :: rest =>
    if t.kind = .dash then do
      let ⟨x, left, _⟩ ← magnitude rest
      return (-x, ⟨left, by simp; omega⟩)
    else magnitude (t :: rest)
  | [] => magnitude []

/-- Takes a mark and the number after it. -/
def numberAfter (mark : TokenKind) (ts : List Token) : Step Float ts := do
  let ⟨_, r₁, _⟩ ← expect mark ts
  let ⟨x, r₂, _⟩ ← number r₁
  return (x, ⟨r₂, by omega⟩)

/-- Takes a name that is no keyword. -/
def freshName (ts : List Token) : Step String ts := do
  let ⟨t, rest⟩ ← expect .name ts
  if (Keyword.ofWord? t.text).isSome then throw (.reserved t.text t.span)
  return (t.text, rest)

/-- Takes the given keyword. -/
def keyword (k : Keyword) (ts : List Token) : Step Unit ts := do
  let ⟨t, rest⟩ ← expect .name ts
  if Keyword.ofWord? t.text = some k then return ((), rest)
  else throw (.expectedKeyword k t.text t.span)

/-- Takes an expression. -/
def expr : (ts : List Token) → Step (Expr Float) ts
  | [] => .error (.endOfInput "expression")
  | t :: ts =>
    if t.kind = .name then
      match Keyword.ofWord? t.text with
      | some .empty => .ok (.literal .empty (some t.span), ⟨ts, by simp⟩)
      | some .point => do
        let ⟨x, r₁, _⟩ ← numberAfter .leftParen ts
        let ⟨y, r₂, _⟩ ← numberAfter .comma r₁
        let ⟨_, r₃, _⟩ ← expect .rightParen r₂
        return (.literal (.point ⟨x, y⟩) (some t.span), ⟨r₃, by simp; omega⟩)
      | some .line => do
        let ⟨slope, r₁, _⟩ ← numberAfter .leftParen ts
        let ⟨intercept, r₂, _⟩ ← numberAfter .comma r₁
        let ⟨_, r₃, _⟩ ← expect .rightParen r₂
        return (.literal (.line ⟨slope, intercept⟩) (some t.span), ⟨r₃, by simp; omega⟩)
      | some .vline => do
        let ⟨x, r₁, _⟩ ← numberAfter .leftParen ts
        let ⟨_, r₂, _⟩ ← expect .rightParen r₁
        return (.literal (.vertical ⟨x⟩) (some t.span), ⟨r₂, by simp; omega⟩)
      | some .segment => do
        let ⟨x₁, r₁, _⟩ ← numberAfter .leftParen ts
        let ⟨y₁, r₂, _⟩ ← numberAfter .comma r₁
        let ⟨x₂, r₃, _⟩ ← numberAfter .comma r₂
        let ⟨y₂, r₄, _⟩ ← numberAfter .comma r₃
        let ⟨_, r₅, _⟩ ← expect .rightParen r₄
        return (.literal (.segment ⟨x₁, y₁, x₂, y₂⟩) (some t.span), ⟨r₅, by simp; omega⟩)
      | some .intersect => do
        let ⟨_, r₁, _⟩ ← expect .leftParen ts
        let ⟨a, r₂, _⟩ ← expr r₁
        let ⟨_, r₃, _⟩ ← expect .comma r₂
        let ⟨b, r₄, _⟩ ← expr r₃
        let ⟨_, r₅, _⟩ ← expect .rightParen r₄
        return (.intersect a b (some t.span), ⟨r₅, by simp; omega⟩)
      | some .shift => do
        let ⟨dx, r₁, _⟩ ← numberAfter .leftParen ts
        let ⟨dy, r₂, _⟩ ← numberAfter .comma r₁
        let ⟨_, r₃, _⟩ ← expect .comma r₂
        let ⟨a, r₄, _⟩ ← expr r₃
        let ⟨_, r₅, _⟩ ← expect .rightParen r₄
        return (.shift dx dy a (some t.span), ⟨r₅, by simp; omega⟩)
      | some .let => do
        let ⟨name, r₁, _⟩ ← freshName ts
        let ⟨_, r₂, _⟩ ← expect .equal r₁
        let ⟨a, r₃, _⟩ ← expr r₂
        let ⟨_, r₄, _⟩ ← keyword .in r₃
        let ⟨b, r₅, _⟩ ← expr r₄
        return (.bind name a b (some t.span), ⟨r₅, by simp; omega⟩)
      | some .in => .error (.unexpectedKeyword t.text t.span)
      | none => .ok (.var t.text (some t.span), ⟨ts, by simp⟩)
    else .error (.expected "expression" t.kind t.span)
termination_by ts => ts.length
decreasing_by all_goals simp; omega

/-- The expression that a whole row of tokens is. -/
def program (ts : List Token) : Except ParseFault (Expr Float) :=
  if ts.isEmpty then .error .emptyProgram
  else do
    match ← expr ts with
    | (e, ⟨[], _⟩) => return e
    | (_, ⟨t :: _, _⟩) => throw (.trailing t.text t.span)

end Parser

/-- The program that a text is, or why it is none. -/
def Expr.read (text : String) : Except ParseFault (Expr Float) := do
  Parser.program (← Token.scan text)

/-- The program that a text is, or a message about it that shows the place. -/
def Expr.parse (text : String) : Except String (Expr Float) :=
  match Expr.read text with
  | .ok e => .ok e
  | .error fault => .error (Diagnostic.located text fault.message)

end Planar
