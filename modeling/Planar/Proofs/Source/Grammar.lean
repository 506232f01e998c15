import Mathlib
import Planar.Expr.Parser

/-!
# The grammar of programs

The language of the parser as a grammar over tokens, with derivations as trees. Each nonterminal is
a type whose constructors are its productions; a derivation has the tokens at its leaves and
denotes an expression.

* `Grammar.Tree` — the derivations of an expression, with `Tree.tokens` and `Tree.expr`;
* `Parser.takes_expr` — the parser takes off a row of tokens exactly what a derivation derives;
* `Grammar.Tree.tokens_append_inj` — no row of tokens has two derivations, and no derivation ends
  within another one;
* `parse_iff_derivation` — a text is a program exactly when its tokens have a derivation, which is
  then the only one and denotes what the parser returns.
-/

namespace Planar

/-! ## Keywords in any letter case -/

namespace Keyword

/-- Whether a word is the given keyword in some letter case. -/
def Spells (k : Keyword) (word : String) : Prop := word.toList.map Char.toLower = k.text.toList

instance (k : Keyword) (word : String) : Decidable (k.Spells word) :=
  inferInstanceAs (Decidable (_ = _))

theorem ofWord?_eq_some_iff {word : String} {k : Keyword} :
    ofWord? word = some k ↔ k.Spells word := by
  unfold ofWord? Spells
  dsimp only
  constructor
  · intro h
    rw [List.find?_eq_some_iff_append] at h
    rw [eq_of_beq h.1, String.toList_ofList]
  · intro h
    rw [h, String.ofList_toList]
    cases k <;> decide +kernel

theorem ofWord?_eq_none_iff {word : String} : ofWord? word = none ↔ ∀ k : Keyword, ¬k.Spells word := by
  rw [Option.eq_none_iff_forall_ne_some]
  simp only [ne_eq, ofWord?_eq_some_iff]

/-- A word is at most one keyword. -/
theorem Spells.unique {k k' : Keyword} {word : String} (h : k.Spells word) (h' : k'.Spells word) :
    k = k' := by
  rw [← ofWord?_eq_some_iff] at h h'
  exact Option.some.inj (h.symm.trans h')

end Keyword

/-! ## Derivations -/

namespace Grammar

/-- A token of a given sort, at a leaf of a derivation. -/
@[ext]
structure Terminal (sort : Token → Prop) where
  token : Token
  sort_token : sort token

/-- A mark or another token of one kind. -/
abbrev Mark (kind : TokenKind) : Type := Terminal fun t => t.kind = kind

/-- A keyword in some letter case. -/
abbrev Word (k : Keyword) : Type := Terminal fun t => t.kind = .name ∧ k.Spells t.text

/-- A name that is no keyword in any letter case. -/
abbrev Name : Type := Terminal fun t => t.kind = .name ∧ ∀ k : Keyword, ¬k.Spells t.text

/-- A numeral in the range of doubles. -/
abbrev Magnitude : Type :=
  Terminal fun t => t.kind = .number ∧ (Parser.numeralValue t.text).isFinite = true

/-- A numeral after an optional dash. -/
@[ext]
structure Number where
  dash : Option (Mark .dash)
  magnitude : Magnitude

/-- The literals, each a keyword with numbers between parentheses. -/
inductive Literal where
  | empty (word : Word .empty)
  | point (word : Word .point) (opening : Mark .leftParen) (x : Number) (comma : Mark .comma)
      (y : Number) (closing : Mark .rightParen)
  | line (word : Word .line) (opening : Mark .leftParen) (slope : Number) (comma : Mark .comma)
      (intercept : Number) (closing : Mark .rightParen)
  | vline (word : Word .vline) (opening : Mark .leftParen) (x : Number)
      (closing : Mark .rightParen)
  | segment (word : Word .segment) (opening : Mark .leftParen) (x₁ : Number) (comma₁ : Mark .comma)
      (y₁ : Number) (comma₂ : Mark .comma) (x₂ : Number) (comma₃ : Mark .comma) (y₂ : Number)
      (closing : Mark .rightParen)

/-- The expressions. -/
inductive Tree where
  | literal (value : Literal)
  | intersect (word : Word .intersect) (opening : Mark .leftParen) (first : Tree)
      (comma : Mark .comma) (second : Tree) (closing : Mark .rightParen)
  | shift (word : Word .shift) (opening : Mark .leftParen) (dx : Number) (comma₁ : Mark .comma)
      (dy : Number) (comma₂ : Mark .comma) (body : Tree) (closing : Mark .rightParen)
  | bind (word : Word .let) (name : Name) (equal : Mark .equal) (bound : Tree) (inside : Word .in)
      (body : Tree)
  | var (name : Name)

/-- A program is one expression. -/
abbrev Program : Type := Tree

/-! ## What derivations derive and denote -/

namespace Number

/-- The tokens of a number. -/
def tokens (n : Number) : List Token := (n.dash.map (·.token)).toList ++ [n.magnitude.token]

/-- The double that a number writes. -/
def value (n : Number) : Float :=
  if n.dash.isSome then -Parser.numeralValue n.magnitude.token.text
  else Parser.numeralValue n.magnitude.token.text

end Number

namespace Literal

/-- The tokens of a literal. -/
def tokens : Literal → List Token
  | empty w => [w.token]
  | point w l x c y r => w.token :: l.token :: (x.tokens ++ c.token :: (y.tokens ++ [r.token]))
  | line w l m c b r => w.token :: l.token :: (m.tokens ++ c.token :: (b.tokens ++ [r.token]))
  | vline w l x r => w.token :: l.token :: (x.tokens ++ [r.token])
  | segment w l x₁ c₁ y₁ c₂ x₂ c₃ y₂ r =>
    w.token :: l.token :: (x₁.tokens ++ c₁.token :: (y₁.tokens ++ c₂.token ::
      (x₂.tokens ++ c₃.token :: (y₂.tokens ++ [r.token]))))

/-- The value of a literal. -/
def value : Literal → Value Float
  | empty _ => .empty
  | point _ _ x _ y _ => .point ⟨x.value, y.value⟩
  | line _ _ m _ b _ => .line ⟨m.value, b.value⟩
  | vline _ _ x _ => .vertical ⟨x.value⟩
  | segment _ _ x₁ _ y₁ _ x₂ _ y₂ _ => .segment ⟨x₁.value, y₁.value, x₂.value, y₂.value⟩

/-- Where a literal begins. -/
def span : Literal → Span
  | empty w => w.token.span
  | point w _ _ _ _ _ => w.token.span
  | line w _ _ _ _ _ => w.token.span
  | vline w _ _ _ => w.token.span
  | segment w _ _ _ _ _ _ _ _ _ => w.token.span

end Literal

namespace Tree

/-- The tokens of an expression. -/
def tokens : Tree → List Token
  | literal v => v.tokens
  | intersect w l a c b r =>
    w.token :: l.token :: (a.tokens ++ c.token :: (b.tokens ++ [r.token]))
  | shift w l dx c₁ dy c₂ a r =>
    w.token :: l.token :: (dx.tokens ++ c₁.token :: (dy.tokens ++ c₂.token ::
      (a.tokens ++ [r.token])))
  | bind w x e a i b => w.token :: x.token :: e.token :: (a.tokens ++ i.token :: b.tokens)
  | var x => [x.token]

/-- The expression that a derivation denotes; each node begins at its first token. -/
def expr : Tree → Expr Float
  | literal v => .literal v.value (some v.span)
  | intersect w _ a _ b _ => .intersect a.expr b.expr (some w.token.span)
  | shift w _ dx _ dy _ a _ => .shift dx.value dy.value a.expr (some w.token.span)
  | bind w x _ a _ b => .bind x.token.text a.expr b.expr (some w.token.span)
  | var x => .var x.token.text (some x.token.span)

end Tree

end Grammar

/-! ## What the parser takes -/

namespace Parser

open Grammar

/-- A step reads `b` off a row of tokens and leaves `rest`. -/
def Takes {β : Type} {ts : List Token} (step : Step β ts) (b : β) (rest : List Token) : Prop :=
  ∃ h, step = .ok (b, ⟨rest, h⟩)

section Steps

variable {β γ : Type} {ts us rest : List Token}

theorem takes_ok {b c : β} {r : Rest ts} :
    Takes (.ok (b, r) : Step β ts) c rest ↔ b = c ∧ r.val = rest := by
  constructor
  · rintro ⟨h, heq⟩
    cases heq
    exact ⟨rfl, rfl⟩
  · rintro ⟨rfl, rfl⟩
    exact ⟨r.property, rfl⟩

theorem not_takes_error {fault : ParseFault} {b : β} :
    ¬Takes (.error fault : Step β ts) b rest := by
  rintro ⟨h, heq⟩
  cases heq

/-- A sequence takes what its first step takes and then what its second step takes. -/
theorem takes_bind {step : Step β ts} {f : β × Rest ts → Step γ us} {c : γ} :
    Takes (step >>= f) c rest ↔
      ∃ b mid, ∃ h : mid.length < ts.length, Takes step b mid ∧ Takes (f (b, ⟨mid, h⟩)) c rest := by
  constructor
  · intro hc
    cases step with
    | error fault => exact absurd hc not_takes_error
    | ok p =>
      obtain ⟨b, mid, h⟩ := p
      exact ⟨b, mid, h, ⟨h, rfl⟩, hc⟩
  · rintro ⟨b, mid, h, ⟨_, rfl⟩, hc⟩
    exact hc

theorem Takes.bind {step : Step β ts} {f : β × Rest ts → Step γ us} {b : β} {c : γ}
    {mid : List Token} (hb : Takes step b mid)
    (hc : ∀ h : mid.length < ts.length, Takes (f (b, ⟨mid, h⟩)) c rest) :
    Takes (step >>= f) c rest := by
  obtain ⟨h, rfl⟩ := hb
  exact hc h

theorem takes_expect {kind : TokenKind} {t : Token} :
    Takes (expect kind ts) t rest ↔ ∃ m : Mark kind, ts = m.token :: rest ∧ m.token = t := by
  cases ts with
  | nil =>
    refine iff_of_false not_takes_error ?_
    rintro ⟨m, h, _⟩
    cases h
  | cons u ts =>
    by_cases hu : u.kind = kind
    · rw [expect, if_pos hu, takes_ok]
      constructor
      · rintro ⟨rfl, rfl⟩
        exact ⟨⟨u, hu⟩, rfl, rfl⟩
      · rintro ⟨m, h, rfl⟩
        cases h
        exact ⟨rfl, rfl⟩
    · rw [expect, if_neg hu]
      refine iff_of_false not_takes_error ?_
      rintro ⟨m, h, _⟩
      cases h
      exact hu m.sort_token

theorem takes_magnitude {x : Float} :
    Takes (magnitude ts) x rest ↔
      ∃ m : Magnitude, ts = m.token :: rest ∧ numeralValue m.token.text = x := by
  constructor
  · intro h
    obtain ⟨t, mid, _, ht, hx⟩ := takes_bind.1 h
    obtain ⟨m, rfl, rfl⟩ := takes_expect.1 ht
    dsimp only at hx
    split at hx
    case isTrue hfinite =>
      obtain ⟨rfl, rfl⟩ := takes_ok.1 hx
      exact ⟨⟨m.token, m.sort_token, hfinite⟩, rfl, rfl⟩
    case isFalse => exact absurd hx not_takes_error
  · rintro ⟨m, rfl, rfl⟩
    refine (takes_expect.2 ⟨⟨m.token, m.sort_token.1⟩, rfl, rfl⟩).bind fun _ => ?_
    dsimp only
    rw [if_pos m.sort_token.2]
    exact takes_ok.2 ⟨rfl, rfl⟩

theorem takes_number {x : Float} :
    Takes (number ts) x rest ↔ ∃ n : Number, ts = n.tokens ++ rest ∧ n.value = x := by
  have plain : Takes (magnitude ts) x rest ↔
      ∃ n : Number, n.dash = none ∧ ts = n.tokens ++ rest ∧ n.value = x := by
    rw [takes_magnitude]
    constructor
    · rintro ⟨m, rfl, rfl⟩
      exact ⟨⟨none, m⟩, rfl, rfl, rfl⟩
    · rintro ⟨⟨_, m⟩, rfl, rfl, rfl⟩
      exact ⟨m, rfl, rfl⟩
  cases ts with
  | nil =>
    refine iff_of_false ?_ ?_
    · intro h
      obtain ⟨m, hm, _⟩ := takes_magnitude.1 h
      cases hm
    · rintro ⟨⟨_ | _, _⟩, h, _⟩ <;> cases h
  | cons t ts =>
    by_cases ht : t.kind = .dash
    · rw [number, if_pos ht]
      constructor
      · intro h
        obtain ⟨y, mid, _, hy, hx⟩ := takes_bind.1 h
        obtain ⟨m, rfl, rfl⟩ := takes_magnitude.1 hy
        obtain ⟨rfl, rfl⟩ := takes_ok.1 hx
        exact ⟨⟨some ⟨t, ht⟩, m⟩, rfl, rfl⟩
      · rintro ⟨⟨_ | d, m⟩, h, rfl⟩
        · cases h
          have := m.sort_token.1.symm.trans ht
          cases this
        · cases h
          exact (takes_magnitude.2 ⟨m, rfl, rfl⟩).bind fun _ => takes_ok.2 ⟨rfl, rfl⟩
    · rw [number, if_neg ht, plain]
      constructor
      · rintro ⟨n, _, h⟩
        exact ⟨n, h⟩
      · rintro ⟨⟨_ | d, m⟩, h⟩
        · exact ⟨_, rfl, h⟩
        · cases h.1
          exact absurd d.sort_token ht

theorem takes_numberAfter {mark : TokenKind} {x : Float} :
    Takes (numberAfter mark ts) x rest ↔
      ∃ (m : Mark mark) (n : Number), ts = m.token :: (n.tokens ++ rest) ∧ n.value = x := by
  constructor
  · intro h
    obtain ⟨t, r₁, h₁, ht, h⟩ := takes_bind.1 h
    obtain ⟨m, rfl, rfl⟩ := takes_expect.1 ht
    obtain ⟨y, r₂, h₂, hy, h⟩ := takes_bind.1 h
    obtain ⟨n, rfl, rfl⟩ := takes_number.1 hy
    obtain ⟨rfl, rfl⟩ := takes_ok.1 h
    exact ⟨m, n, rfl, rfl⟩
  · rintro ⟨m, n, rfl, rfl⟩
    refine (takes_expect.2 ⟨m, rfl, rfl⟩).bind fun _ => ?_
    exact (takes_number.2 ⟨n, rfl, rfl⟩).bind fun _ => takes_ok.2 ⟨rfl, rfl⟩

theorem takes_freshName {name : String} :
    Takes (freshName ts) name rest ↔
      ∃ x : Name, ts = x.token :: rest ∧ x.token.text = name := by
  constructor
  · intro h
    obtain ⟨t, mid, _, ht, hname⟩ := takes_bind.1 h
    obtain ⟨m, rfl, rfl⟩ := takes_expect.1 ht
    dsimp only at hname
    cases hk : Keyword.ofWord? m.token.text with
    | some k =>
      rw [hk] at hname
      exact absurd hname not_takes_error
    | none =>
      rw [hk] at hname
      obtain ⟨rfl, rfl⟩ := takes_ok.1 hname
      exact ⟨⟨m.token, m.sort_token, Keyword.ofWord?_eq_none_iff.1 hk⟩, rfl, rfl⟩
  · rintro ⟨x, rfl, rfl⟩
    refine (takes_expect.2 ⟨⟨x.token, x.sort_token.1⟩, rfl, rfl⟩).bind fun _ => ?_
    dsimp only
    rw [Keyword.ofWord?_eq_none_iff.2 x.sort_token.2]
    exact takes_ok.2 ⟨rfl, rfl⟩

theorem takes_keyword {k : Keyword} :
    Takes (keyword k ts) () rest ↔ ∃ w : Word k, ts = w.token :: rest := by
  constructor
  · intro h
    obtain ⟨t, mid, _, ht, hk⟩ := takes_bind.1 h
    obtain ⟨m, rfl, rfl⟩ := takes_expect.1 ht
    dsimp only at hk
    split at hk
    case isTrue hspells =>
      obtain ⟨_, rfl⟩ := takes_ok.1 hk
      exact ⟨⟨m.token, m.sort_token, Keyword.ofWord?_eq_some_iff.1 hspells⟩, rfl⟩
    case isFalse => exact absurd hk not_takes_error
  · rintro ⟨w, rfl⟩
    refine (takes_expect.2 ⟨⟨w.token, w.sort_token.1⟩, rfl, rfl⟩).bind fun _ => ?_
    dsimp only
    rw [if_pos (Keyword.ofWord?_eq_some_iff.2 w.sort_token.2)]
    exact takes_ok.2 ⟨rfl, rfl⟩

end Steps

section Expressions

variable {t : Token} {ts rest : List Token} {e : Expr Float}

/-- The parser takes every literal, whatever comes after it. -/
theorem takes_literal (v : Literal) (rest : List Token) :
    Takes (expr (v.tokens ++ rest)) (.literal v.value (some v.span)) rest := by
  cases v with
  | empty w =>
    rw [Literal.tokens, List.cons_append, expr, if_pos w.sort_token.1,
      Keyword.ofWord?_eq_some_iff.2 w.sort_token.2]
    exact takes_ok.2 ⟨rfl, rfl⟩
  | point w l x c y r =>
    rw [Literal.tokens, List.cons_append, List.cons_append, List.append_assoc, List.cons_append,
      List.append_assoc, expr, if_pos w.sort_token.1, Keyword.ofWord?_eq_some_iff.2 w.sort_token.2]
    refine (takes_numberAfter.2 ⟨l, x, rfl, rfl⟩).bind fun _ => ?_
    refine (takes_numberAfter.2 ⟨c, y, rfl, rfl⟩).bind fun _ => ?_
    exact (takes_expect.2 ⟨r, rfl, rfl⟩).bind fun _ => takes_ok.2 ⟨rfl, rfl⟩
  | line w l m c b r =>
    rw [Literal.tokens, List.cons_append, List.cons_append, List.append_assoc, List.cons_append,
      List.append_assoc, expr, if_pos w.sort_token.1, Keyword.ofWord?_eq_some_iff.2 w.sort_token.2]
    refine (takes_numberAfter.2 ⟨l, m, rfl, rfl⟩).bind fun _ => ?_
    refine (takes_numberAfter.2 ⟨c, b, rfl, rfl⟩).bind fun _ => ?_
    exact (takes_expect.2 ⟨r, rfl, rfl⟩).bind fun _ => takes_ok.2 ⟨rfl, rfl⟩
  | vline w l x r =>
    rw [Literal.tokens, List.cons_append, List.cons_append, List.append_assoc, expr,
      if_pos w.sort_token.1, Keyword.ofWord?_eq_some_iff.2 w.sort_token.2]
    refine (takes_numberAfter.2 ⟨l, x, rfl, rfl⟩).bind fun _ => ?_
    exact (takes_expect.2 ⟨r, rfl, rfl⟩).bind fun _ => takes_ok.2 ⟨rfl, rfl⟩
  | segment w l x₁ c₁ y₁ c₂ x₂ c₃ y₂ r =>
    rw [Literal.tokens, List.cons_append, List.cons_append, List.append_assoc, List.cons_append,
      List.append_assoc, List.cons_append, List.append_assoc, List.cons_append, List.append_assoc,
      expr, if_pos w.sort_token.1, Keyword.ofWord?_eq_some_iff.2 w.sort_token.2]
    refine (takes_numberAfter.2 ⟨l, x₁, rfl, rfl⟩).bind fun _ => ?_
    refine (takes_numberAfter.2 ⟨c₁, y₁, rfl, rfl⟩).bind fun _ => ?_
    refine (takes_numberAfter.2 ⟨c₂, x₂, rfl, rfl⟩).bind fun _ => ?_
    refine (takes_numberAfter.2 ⟨c₃, y₂, rfl, rfl⟩).bind fun _ => ?_
    exact (takes_expect.2 ⟨r, rfl, rfl⟩).bind fun _ => takes_ok.2 ⟨rfl, rfl⟩

/-- The parser takes every derivable expression, whatever comes after it. -/
theorem takes_tree (d : Tree) (rest : List Token) :
    Takes (expr (d.tokens ++ rest)) d.expr rest := by
  induction d generalizing rest with
  | literal v => exact takes_literal v rest
  | intersect w l a c b r iha ihb =>
    rw [Tree.tokens, List.cons_append, List.cons_append, List.append_assoc, List.cons_append,
      List.append_assoc, expr, if_pos w.sort_token.1, Keyword.ofWord?_eq_some_iff.2 w.sort_token.2]
    refine (takes_expect.2 ⟨l, rfl, rfl⟩).bind fun _ => ?_
    refine (iha _).bind fun _ => ?_
    refine (takes_expect.2 ⟨c, rfl, rfl⟩).bind fun _ => ?_
    refine (ihb _).bind fun _ => ?_
    exact (takes_expect.2 ⟨r, rfl, rfl⟩).bind fun _ => takes_ok.2 ⟨rfl, rfl⟩
  | shift w l dx c₁ dy c₂ a r ih =>
    rw [Tree.tokens, List.cons_append, List.cons_append, List.append_assoc, List.cons_append,
      List.append_assoc, List.cons_append, List.append_assoc, expr, if_pos w.sort_token.1,
      Keyword.ofWord?_eq_some_iff.2 w.sort_token.2]
    refine (takes_numberAfter.2 ⟨l, dx, rfl, rfl⟩).bind fun _ => ?_
    refine (takes_numberAfter.2 ⟨c₁, dy, rfl, rfl⟩).bind fun _ => ?_
    refine (takes_expect.2 ⟨c₂, rfl, rfl⟩).bind fun _ => ?_
    refine (ih _).bind fun _ => ?_
    exact (takes_expect.2 ⟨r, rfl, rfl⟩).bind fun _ => takes_ok.2 ⟨rfl, rfl⟩
  | bind w x q a i b iha ihb =>
    rw [Tree.tokens, List.cons_append, List.cons_append, List.cons_append, List.append_assoc,
      List.cons_append, expr, if_pos w.sort_token.1, Keyword.ofWord?_eq_some_iff.2 w.sort_token.2]
    refine (takes_freshName.2 ⟨x, rfl, rfl⟩).bind fun _ => ?_
    refine (takes_expect.2 ⟨q, rfl, rfl⟩).bind fun _ => ?_
    refine (iha _).bind fun _ => ?_
    refine (takes_keyword.2 ⟨i, rfl⟩).bind fun _ => ?_
    exact (ihb _).bind fun _ => takes_ok.2 ⟨rfl, rfl⟩
  | var x =>
    rw [Tree.tokens, List.cons_append, expr, if_pos x.sort_token.1,
      Keyword.ofWord?_eq_none_iff.2 x.sort_token.2]
    exact takes_ok.2 ⟨rfl, rfl⟩

/-- What the parser takes off a row of tokens has a derivation. -/
theorem exists_tree_of_takes (h : Takes (expr ts) e rest) :
    ∃ d : Tree, ts = d.tokens ++ rest ∧ d.expr = e := by
  -- every recursive call is on a shorter row
  induction hn : ts.length using Nat.strong_induction_on generalizing ts e rest with
  | _ n ih =>
  cases ts with
  | nil =>
    rw [expr] at h
    exact absurd h not_takes_error
  | cons t ts =>
  rw [List.length_cons] at hn
  rw [expr] at h
  by_cases hname : t.kind = .name
  swap
  · rw [if_neg hname] at h
    exact absurd h not_takes_error
  rw [if_pos hname] at h
  cases hk : Keyword.ofWord? t.text with
  | none =>
    rw [hk] at h
    obtain ⟨rfl, rfl⟩ := takes_ok.1 h
    exact ⟨.var ⟨t, hname, Keyword.ofWord?_eq_none_iff.1 hk⟩, rfl, rfl⟩
  | some k =>
  rw [hk] at h
  have hword : t.kind = .name ∧ k.Spells t.text := ⟨hname, Keyword.ofWord?_eq_some_iff.1 hk⟩
  cases k with
  | empty =>
    obtain ⟨rfl, rfl⟩ := takes_ok.1 h
    exact ⟨.literal (.empty ⟨t, hword⟩), rfl, rfl⟩
  | point =>
    obtain ⟨_, r₁, _, hx, h⟩ := takes_bind.1 h
    obtain ⟨l, x, rfl, rfl⟩ := takes_numberAfter.1 hx
    obtain ⟨_, r₂, _, hy, h⟩ := takes_bind.1 h
    obtain ⟨c, y, rfl, rfl⟩ := takes_numberAfter.1 hy
    obtain ⟨_, r₃, _, hr, h⟩ := takes_bind.1 h
    obtain ⟨r, rfl, rfl⟩ := takes_expect.1 hr
    obtain ⟨rfl, rfl⟩ := takes_ok.1 h
    exact ⟨.literal (.point ⟨t, hword⟩ l x c y r), by simp [Tree.tokens, Literal.tokens], rfl⟩
  | line =>
    obtain ⟨_, r₁, _, hm, h⟩ := takes_bind.1 h
    obtain ⟨l, m, rfl, rfl⟩ := takes_numberAfter.1 hm
    obtain ⟨_, r₂, _, hb, h⟩ := takes_bind.1 h
    obtain ⟨c, b, rfl, rfl⟩ := takes_numberAfter.1 hb
    obtain ⟨_, r₃, _, hr, h⟩ := takes_bind.1 h
    obtain ⟨r, rfl, rfl⟩ := takes_expect.1 hr
    obtain ⟨rfl, rfl⟩ := takes_ok.1 h
    exact ⟨.literal (.line ⟨t, hword⟩ l m c b r), by simp [Tree.tokens, Literal.tokens], rfl⟩
  | vline =>
    obtain ⟨_, r₁, _, hx, h⟩ := takes_bind.1 h
    obtain ⟨l, x, rfl, rfl⟩ := takes_numberAfter.1 hx
    obtain ⟨_, r₂, _, hr, h⟩ := takes_bind.1 h
    obtain ⟨r, rfl, rfl⟩ := takes_expect.1 hr
    obtain ⟨rfl, rfl⟩ := takes_ok.1 h
    exact ⟨.literal (.vline ⟨t, hword⟩ l x r), by simp [Tree.tokens, Literal.tokens], rfl⟩
  | segment =>
    obtain ⟨_, r₁, _, hx₁, h⟩ := takes_bind.1 h
    obtain ⟨l, x₁, rfl, rfl⟩ := takes_numberAfter.1 hx₁
    obtain ⟨_, r₂, _, hy₁, h⟩ := takes_bind.1 h
    obtain ⟨c₁, y₁, rfl, rfl⟩ := takes_numberAfter.1 hy₁
    obtain ⟨_, r₃, _, hx₂, h⟩ := takes_bind.1 h
    obtain ⟨c₂, x₂, rfl, rfl⟩ := takes_numberAfter.1 hx₂
    obtain ⟨_, r₄, _, hy₂, h⟩ := takes_bind.1 h
    obtain ⟨c₃, y₂, rfl, rfl⟩ := takes_numberAfter.1 hy₂
    obtain ⟨_, r₅, _, hr, h⟩ := takes_bind.1 h
    obtain ⟨r, rfl, rfl⟩ := takes_expect.1 hr
    obtain ⟨rfl, rfl⟩ := takes_ok.1 h
    exact ⟨.literal (.segment ⟨t, hword⟩ l x₁ c₁ y₁ c₂ x₂ c₃ y₂ r),
      by simp [Tree.tokens, Literal.tokens], rfl⟩
  | intersect =>
    obtain ⟨_, r₁, _, hl, h⟩ := takes_bind.1 h
    obtain ⟨l, rfl, rfl⟩ := takes_expect.1 hl
    obtain ⟨_, r₂, _, ha, h⟩ := takes_bind.1 h
    obtain ⟨a, rfl, rfl⟩ := ih _ (by simp at hn; omega) ha rfl
    obtain ⟨_, r₃, _, hc, h⟩ := takes_bind.1 h
    obtain ⟨c, rfl, rfl⟩ := takes_expect.1 hc
    obtain ⟨_, r₄, _, hb, h⟩ := takes_bind.1 h
    obtain ⟨b, rfl, rfl⟩ := ih _ (by simp at hn; omega) hb rfl
    obtain ⟨_, r₅, _, hr, h⟩ := takes_bind.1 h
    obtain ⟨r, rfl, rfl⟩ := takes_expect.1 hr
    obtain ⟨rfl, rfl⟩ := takes_ok.1 h
    exact ⟨.intersect ⟨t, hword⟩ l a c b r, by simp [Tree.tokens], rfl⟩
  | shift =>
    obtain ⟨_, r₁, _, hdx, h⟩ := takes_bind.1 h
    obtain ⟨l, dx, rfl, rfl⟩ := takes_numberAfter.1 hdx
    obtain ⟨_, r₂, _, hdy, h⟩ := takes_bind.1 h
    obtain ⟨c₁, dy, rfl, rfl⟩ := takes_numberAfter.1 hdy
    obtain ⟨_, r₃, _, hc, h⟩ := takes_bind.1 h
    obtain ⟨c₂, rfl, rfl⟩ := takes_expect.1 hc
    obtain ⟨_, r₄, _, ha, h⟩ := takes_bind.1 h
    obtain ⟨a, rfl, rfl⟩ := ih _ (by simp at hn; omega) ha rfl
    obtain ⟨_, r₅, _, hr, h⟩ := takes_bind.1 h
    obtain ⟨r, rfl, rfl⟩ := takes_expect.1 hr
    obtain ⟨rfl, rfl⟩ := takes_ok.1 h
    exact ⟨.shift ⟨t, hword⟩ l dx c₁ dy c₂ a r, by simp [Tree.tokens], rfl⟩
  | «let» =>
    obtain ⟨_, r₁, _, hx, h⟩ := takes_bind.1 h
    obtain ⟨x, rfl, rfl⟩ := takes_freshName.1 hx
    obtain ⟨_, r₂, _, hq, h⟩ := takes_bind.1 h
    obtain ⟨q, rfl, rfl⟩ := takes_expect.1 hq
    obtain ⟨_, r₃, _, ha, h⟩ := takes_bind.1 h
    obtain ⟨a, rfl, rfl⟩ := ih _ (by simp at hn; omega) ha rfl
    obtain ⟨_, r₄, _, hi, h⟩ := takes_bind.1 h
    obtain ⟨i, rfl⟩ := takes_keyword.1 hi
    obtain ⟨_, r₅, _, hb, h⟩ := takes_bind.1 h
    obtain ⟨b, rfl, rfl⟩ := ih _ (by simp at hn; omega) hb rfl
    obtain ⟨rfl, rfl⟩ := takes_ok.1 h
    exact ⟨.bind ⟨t, hword⟩ x q a i b, by simp [Tree.tokens], rfl⟩
  | «in» => exact absurd h not_takes_error

theorem takes_expr :
    Takes (expr ts) e rest ↔ ∃ d : Tree, ts = d.tokens ++ rest ∧ d.expr = e := by
  constructor
  · exact exists_tree_of_takes
  · rintro ⟨d, rfl, rfl⟩
    exact takes_tree d rest

/-- A program is an expression with no tokens left over. -/
theorem program_eq_ok_iff_takes : program ts = .ok e ↔ Takes (expr ts) e [] := by
  cases ts with
  | nil =>
    rw [expr]
    refine iff_of_false ?_ not_takes_error
    intro h
    cases h
  | cons t ts =>
    rw [program, List.isEmpty_cons, if_neg Bool.false_ne_true]
    cases expr (t :: ts) with
    | error fault =>
      refine iff_of_false ?_ not_takes_error
      intro h
      cases h
    | ok p =>
      obtain ⟨e', rest, hrest⟩ := p
      rw [takes_ok]
      cases rest with
      | nil =>
        constructor
        · intro h
          cases h
          exact ⟨rfl, rfl⟩
        · rintro ⟨rfl, -⟩
          rfl
      | cons u rest =>
        refine iff_of_false ?_ ?_
        · intro h
          cases h
        · rintro ⟨-, h⟩
          cases h

theorem program_eq_ok_iff :
    program ts = .ok e ↔ ∃ d : Program, d.tokens = ts ∧ d.expr = e := by
  rw [program_eq_ok_iff_takes, takes_expr]
  simp only [List.append_nil, eq_comm]

end Expressions

end Parser

/-! ## Derivations are unique -/

namespace Grammar

variable {r₁ r₂ : List Token}

@[simp]
theorem Terminal.token_inj {sort : Token → Prop} {m₁ m₂ : Terminal sort} :
    m₁.token = m₂.token ↔ m₁ = m₂ := Terminal.ext_iff.symm

@[simp]
theorem Number.tokens_append_inj {n₁ n₂ : Number} :
    n₁.tokens ++ r₁ = n₂.tokens ++ r₂ ↔ n₁ = n₂ ∧ r₁ = r₂ := by
  obtain ⟨d₁, m₁⟩ := n₁
  obtain ⟨d₂, m₂⟩ := n₂
  -- a dash at the front tells the two productions apart, since a numeral is no dash
  have dash_ne {d : Mark .dash} {m : Magnitude} : d.token ≠ m.token := by
    intro heq
    have hkind := d.sort_token
    rw [heq, m.sort_token.1] at hkind
    cases hkind
  cases d₁ with
  | none =>
    cases d₂ with
    | none => simp [tokens]
    | some d => simp [tokens, dash_ne.symm]
  | some d₁ =>
    cases d₂ with
    | none => simp [tokens, dash_ne]
    | some d₂ => simp [tokens, and_assoc]

/-- The keyword at the front of a literal. -/
def Literal.word : Literal → Keyword
  | empty .. => .empty
  | point .. => .point
  | line .. => .line
  | vline .. => .vline
  | segment .. => .segment

theorem Literal.exists_cons (v : Literal) :
    ∃ t us, v.tokens = t :: us ∧ v.word.Spells t.text := by
  cases v with
  | empty w => exact ⟨_, _, rfl, w.sort_token.2⟩
  | point w => exact ⟨_, _, rfl, w.sort_token.2⟩
  | line w => exact ⟨_, _, rfl, w.sort_token.2⟩
  | vline w => exact ⟨_, _, rfl, w.sort_token.2⟩
  | segment w => exact ⟨_, _, rfl, w.sort_token.2⟩

theorem Literal.word_eq_of_append {v₁ v₂ : Literal} (h : v₁.tokens ++ r₁ = v₂.tokens ++ r₂) :
    v₁.word = v₂.word := by
  obtain ⟨t₁, us₁, h₁, hs₁⟩ := v₁.exists_cons
  obtain ⟨t₂, us₂, h₂, hs₂⟩ := v₂.exists_cons
  rw [h₁, h₂] at h
  rw [(List.cons.inj h).1] at hs₁
  exact hs₁.unique hs₂

theorem Literal.tokens_append_inj {v₁ v₂ : Literal} (h : v₁.tokens ++ r₁ = v₂.tokens ++ r₂) :
    v₁ = v₂ ∧ r₁ = r₂ := by
  have hword := word_eq_of_append h
  cases v₁ with
  | empty =>
    cases v₂ with
    | empty => simpa [tokens] using h
    | _ => cases hword
  | point =>
    cases v₂ with
    | point => simpa [tokens, and_assoc] using h
    | _ => cases hword
  | line =>
    cases v₂ with
    | line => simpa [tokens, and_assoc] using h
    | _ => cases hword
  | vline =>
    cases v₂ with
    | vline => simpa [tokens, and_assoc] using h
    | _ => cases hword
  | segment =>
    cases v₂ with
    | segment => simpa [tokens, and_assoc] using h
    | _ => cases hword

/-- The keyword at the front of an expression, which only a variable lacks. -/
def Tree.word? : Tree → Option Keyword
  | literal v => some v.word
  | intersect .. => some .intersect
  | shift .. => some .shift
  | bind .. => some .let
  | var .. => none

theorem Tree.exists_cons (d : Tree) :
    ∃ t us, d.tokens = t :: us ∧ Keyword.ofWord? t.text = d.word? := by
  cases d with
  | literal v =>
    obtain ⟨t, us, h, hs⟩ := v.exists_cons
    exact ⟨t, us, h, Keyword.ofWord?_eq_some_iff.2 hs⟩
  | intersect w => exact ⟨_, _, rfl, Keyword.ofWord?_eq_some_iff.2 w.sort_token.2⟩
  | shift w => exact ⟨_, _, rfl, Keyword.ofWord?_eq_some_iff.2 w.sort_token.2⟩
  | bind w => exact ⟨_, _, rfl, Keyword.ofWord?_eq_some_iff.2 w.sort_token.2⟩
  | var x => exact ⟨_, _, rfl, Keyword.ofWord?_eq_none_iff.2 x.sort_token.2⟩

theorem Tree.word?_eq_of_append {d₁ d₂ : Tree} (h : d₁.tokens ++ r₁ = d₂.tokens ++ r₂) :
    d₁.word? = d₂.word? := by
  obtain ⟨t₁, us₁, h₁, hw₁⟩ := d₁.exists_cons
  obtain ⟨t₂, us₂, h₂, hw₂⟩ := d₂.exists_cons
  rw [h₁, h₂] at h
  rw [← hw₁, ← hw₂, (List.cons.inj h).1]

theorem Tree.tokens_append_inj {d₁ d₂ : Tree} :
    d₁.tokens ++ r₁ = d₂.tokens ++ r₂ ↔ d₁ = d₂ ∧ r₁ = r₂ := by
  constructor
  swap
  · rintro ⟨rfl, rfl⟩
    rfl
  intro h
  -- the keyword at the front fixes the production; nothing closes the body of a binding, so the
  -- induction is over all rows that come after the derivations
  induction d₁ generalizing d₂ r₁ r₂ with
  | literal v₁ =>
    have hword := word?_eq_of_append h
    cases d₂ with
    | literal v₂ =>
      obtain ⟨rfl, hr⟩ := Literal.tokens_append_inj h
      exact ⟨rfl, hr⟩
    | var => cases hword
    | _ => cases v₁ <;> cases hword
  | intersect w₁ l₁ a₁ c₁ b₁ p₁ iha ihb =>
    have hword := word?_eq_of_append h
    cases d₂ with
    | intersect w₂ l₂ a₂ c₂ b₂ p₂ =>
      simp only [tokens, List.cons_append, List.append_assoc, List.cons.injEq,
        Terminal.token_inj] at h
      obtain ⟨rfl, rfl, h⟩ := h
      obtain ⟨rfl, hb⟩ := iha h
      rw [List.cons.injEq, Terminal.token_inj] at hb
      obtain ⟨rfl, hb⟩ := hb
      obtain ⟨rfl, hr⟩ := ihb hb
      simpa using hr
    | literal v => cases v <;> cases hword
    | _ => cases hword
  | shift w₁ l₁ x₁ c₁ y₁ e₁ a₁ p₁ ih =>
    have hword := word?_eq_of_append h
    cases d₂ with
    | shift w₂ l₂ x₂ c₂ y₂ e₂ a₂ p₂ =>
      simp only [tokens, List.cons_append, List.append_assoc, List.cons.injEq,
        Terminal.token_inj, Number.tokens_append_inj] at h
      obtain ⟨rfl, rfl, rfl, rfl, rfl, rfl, h⟩ := h
      obtain ⟨rfl, hr⟩ := ih h
      simpa using hr
    | literal v => cases v <;> cases hword
    | _ => cases hword
  | bind w₁ x₁ q₁ a₁ i₁ b₁ iha ihb =>
    have hword := word?_eq_of_append h
    cases d₂ with
    | bind w₂ x₂ q₂ a₂ i₂ b₂ =>
      simp only [tokens, List.cons_append, List.append_assoc, List.cons.injEq,
        Terminal.token_inj] at h
      obtain ⟨rfl, rfl, rfl, h⟩ := h
      obtain ⟨rfl, hb⟩ := iha h
      rw [List.cons.injEq, Terminal.token_inj] at hb
      obtain ⟨rfl, hb⟩ := hb
      obtain ⟨rfl, hr⟩ := ihb hb
      exact ⟨rfl, hr⟩
    | literal v => cases v <;> cases hword
    | _ => cases hword
  | var x₁ =>
    have hword := word?_eq_of_append h
    cases d₂ with
    | var x₂ => simpa [tokens] using h
    | _ => cases hword

end Grammar

theorem Expr.parse_eq_ok_iff {text : String} {ts : List Token} (h : Token.scan text = .ok ts)
    {e : Expr Float} : Expr.parse text = .ok e ↔ Parser.program ts = .ok e := by
  have hread : Expr.read text = Parser.program ts := by
    rw [Expr.read, h]
    rfl
  rw [Expr.parse, hread]
  cases Parser.program ts with
  | ok e' => rw [Except.ok.injEq, Except.ok.injEq]
  | error fault => exact iff_of_false nofun nofun

/-- A text that divides into tokens is a program exactly when the tokens have a derivation. The
parser then returns what the derivation denotes, and there is no second one. -/
theorem parse_iff_derivation (text : String) (ts : List Token) (h : Token.scan text = .ok ts) :
    (∀ e, Expr.parse text = .ok e ↔ ∃ d : Grammar.Program, d.tokens = ts ∧ d.expr = e) ∧
      ∀ d₁ d₂ : Grammar.Program, d₁.tokens = ts → d₂.tokens = ts → d₁ = d₂ := by
  refine ⟨?_, ?_⟩
  · intro e
    rw [Expr.parse_eq_ok_iff h, Parser.program_eq_ok_iff]
  · intro d₁ d₂ h₁ h₂
    have happend : d₁.tokens ++ [] = d₂.tokens ++ [] := by rw [h₁, h₂]
    exact (Grammar.Tree.tokens_append_inj.1 happend).1

theorem parse_iff_derivation_nested :
    ∃ ts, Token.scan "LET a = let b = vline(-1e3) in b In a" = .ok ts ∧
      (∀ e, Expr.parse "LET a = let b = vline(-1e3) in b In a" = .ok e ↔
        ∃ d : Grammar.Program, d.tokens = ts ∧ d.expr = e) ∧
      ∀ d₁ d₂ : Grammar.Program, d₁.tokens = ts → d₂.tokens = ts → d₁ = d₂ := by
  have h : Token.scan "LET a = let b = vline(-1e3) in b In a" = .ok
      [⟨.name, "LET", ⟨1, 1⟩⟩, ⟨.name, "a", ⟨1, 5⟩⟩, ⟨.equal, "=", ⟨1, 7⟩⟩,
        ⟨.name, "let", ⟨1, 9⟩⟩, ⟨.name, "b", ⟨1, 13⟩⟩, ⟨.equal, "=", ⟨1, 15⟩⟩,
        ⟨.name, "vline", ⟨1, 17⟩⟩, ⟨.leftParen, "(", ⟨1, 22⟩⟩, ⟨.dash, "-", ⟨1, 23⟩⟩,
        ⟨.number, "1e3", ⟨1, 24⟩⟩, ⟨.rightParen, ")", ⟨1, 27⟩⟩, ⟨.name, "in", ⟨1, 29⟩⟩,
        ⟨.name, "b", ⟨1, 32⟩⟩, ⟨.name, "In", ⟨1, 34⟩⟩, ⟨.name, "a", ⟨1, 37⟩⟩] := by
    cbv
  exact ⟨_, h, parse_iff_derivation _ _ h⟩

end Planar
