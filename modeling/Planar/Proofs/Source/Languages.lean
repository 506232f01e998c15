import Mathlib.Computability.Language
import Planar.Proofs.Source.Lexemes

/-!
# The languages of the grammar

The rows of tokens that the nonterminals of the grammar derive, without places, as languages. An
expression is a name token and a row that the keyword at the front decides about.

* `Rows` — the rows that derivations of some sort have at their leaves;
* `PrefixFree` — no row starts with two members of a language;
* `Finishable` — a language has a member that can be written;
* `Expressions.cons_mem` — what may follow the first token of an expression;
* `Expressions.prefixFree`, `Expressions.finishable` — no expression ends within another one, and
  one can be written after any other row.
-/

namespace Planar

open Grammar

/-- A token without its place: its kind and its text. -/
abbrev TokenShape : Type := TokenKind × String

/-- The token of a given shape at the origin. -/
def TokenShape.token (s : TokenShape) : Token := ⟨s.1, s.2, ⟨0, 0⟩⟩

/-- The rows of shapes at the leaves of derivations. -/
def Rows {D : Type} (tokens : D → List Token) : Language TokenShape :=
  {u | ∃ d, (tokens d).map Token.shape = u}

/-- The rows of one token of a given sort. -/
abbrev Single (sort : Token → Prop) : Language TokenShape := Rows fun m : Terminal sort => [m.token]

/-- The rows of one mark, or of one other token of the given kind. -/
abbrev Marks (kind : TokenKind) : Language TokenShape := Single fun t => t.kind = kind

/-- The keyword `k` in any letter case. -/
abbrev Words (k : Keyword) : Language TokenShape :=
  Single fun t => t.kind = .name ∧ k.Spells t.text

/-- The names that are no keywords. -/
abbrev Names : Language TokenShape :=
  Single fun t => t.kind = .name ∧ ∀ k : Keyword, ¬k.Spells t.text

/-- The numerals in the range of doubles. -/
abbrev Magnitudes : Language TokenShape :=
  Single fun t => t.kind = .number ∧ (Parser.numeralValue t.text).isFinite = true

/-- The numbers. -/
abbrev Numbers : Language TokenShape := Rows Number.tokens

/-- The numbers after a mark. -/
abbrev NumbersAfter (mark : TokenKind) : Language TokenShape := Marks mark * Numbers

/-- The expressions. -/
abbrev Expressions : Language TokenShape := Rows Tree.tokens

/-- Whether a sort of tokens does not depend on the place of a token. -/
def Placeless (sort : Token → Prop) : Prop := ∀ t u : Token, t.shape = u.shape → sort t → sort u

theorem Placeless.of_shape {sort : Token → Prop} {P : TokenShape → Prop}
    (h : ∀ t : Token, sort t ↔ P t.shape) : Placeless sort := by
  intro t u heq ht
  rw [h, ← heq]
  exact (h t).1 ht

/-! ## Rows that start with two members -/

/-- Whether no row starts with a member of length at most `n` and with another member. -/
def PrefixFreeUpTo (n : Nat) (P : Language TokenShape) : Prop :=
  ∀ u ∈ P, u.length ≤ n → ∀ v ∈ P, ∀ r r' : List TokenShape, u ++ r = v ++ r' → u = v

/-- Whether no row starts with two members of a language. -/
def PrefixFree (P : Language TokenShape) : Prop := ∀ n, PrefixFreeUpTo n P

theorem PrefixFree.eq_of_append {P : Language TokenShape} (h : PrefixFree P)
    {u v : List TokenShape} (hu : u ∈ P) (hv : v ∈ P) (r r' : List TokenShape)
    (heq : u ++ r = v ++ r') : u = v :=
  h u.length u hu le_rfl v hv r r' heq

theorem PrefixFreeUpTo.one (n : Nat) : PrefixFreeUpTo n 1 := by
  rintro u rfl _ v rfl r r' _
  rfl

theorem PrefixFreeUpTo.mul {n : Nat} {P Q : Language TokenShape} (hP : PrefixFreeUpTo n P)
    (hQ : PrefixFreeUpTo n Q) : PrefixFreeUpTo n (P * Q) := by
  intro u hu hlength v hv r r' heq
  obtain ⟨a, ha, b, hb, rfl⟩ := Language.mem_mul.1 hu
  obtain ⟨c, hc, d, hd, rfl⟩ := Language.mem_mul.1 hv
  rw [List.length_append] at hlength
  rw [List.append_assoc, List.append_assoc] at heq
  obtain rfl := hP a ha (by omega) c hc _ _ heq
  obtain rfl := hQ b hb (by omega) d hd _ _ (List.append_cancel_left heq)
  rfl

theorem Single.prefixFree (sort : Token → Prop) : PrefixFree (Single sort) := by
  rintro n u ⟨a, rfl⟩ _ v ⟨b, rfl⟩ r r' heq
  simp only [List.map_cons, List.map_nil, List.singleton_append, List.cons.injEq] at heq
  rw [List.map_singleton, List.map_singleton, heq.1]

/-! ## Members that can be written -/

/-- Whether a language has a member that can be written. -/
def Finishable (P : Language TokenShape) : Prop := ∃ u ∈ P, ∀ s ∈ u, IsLexeme s.1 s.2

theorem Finishable.one : Finishable 1 := ⟨[], rfl, nofun⟩

theorem Finishable.mul {P Q : Language TokenShape} (hP : Finishable P) (hQ : Finishable Q) :
    Finishable (P * Q) := by
  obtain ⟨u, hu, hlexemes⟩ := hP
  obtain ⟨v, hv, hlexemes'⟩ := hQ
  refine ⟨u ++ v, Language.append_mem_mul hu hv, ?_⟩
  intro s hs
  rcases List.mem_append.1 hs with hs | hs
  · exact hlexemes s hs
  · exact hlexemes' s hs

theorem Single.finishable {sort : Token → Prop} (s : TokenShape) (hs : sort s.token)
    (hlexeme : IsLexeme s.1 s.2) : Finishable (Single sort) := by
  refine ⟨[s], ⟨⟨s.token, hs⟩, rfl⟩, ?_⟩
  intro t ht
  rwa [List.mem_singleton.1 ht]

theorem Keyword.isName_text (k : Keyword) : IsName k.text := by
  cases k <;> exact ⟨_, _, rfl, by decide, List.all_eq_true.1 (by decide)⟩

theorem Marks.finishable (kind : TokenKind) : Finishable (Marks kind) := by
  cases kind with
  | number =>
    refine Single.finishable (.number, "0") rfl
      (.number (n := ⟨['0'], none, none⟩) ⟨?_, ?_, ?_, ?_⟩)
    · simpa using by decide
    · nofun
    · exact .inl (List.cons_ne_nil _ _)
    · nofun
  | name => exact Single.finishable (.name, "in") rfl (.name (Keyword.in).isName_text)
  | leftParen => exact Single.finishable (.leftParen, "(") rfl (.mark (c := '(') rfl)
  | rightParen => exact Single.finishable (.rightParen, ")") rfl (.mark (c := ')') rfl)
  | comma => exact Single.finishable (.comma, ",") rfl (.mark (c := ',') rfl)
  | equal => exact Single.finishable (.equal, "=") rfl (.mark (c := '=') rfl)
  | dash => exact Single.finishable (.dash, "-") rfl (.mark (c := '-') rfl)

theorem Words.finishable (k : Keyword) : Finishable (Words k) :=
  Single.finishable (.name, k.text) ⟨rfl, Keyword.ofWord?_eq_some_iff.1 k.ofWord?_text⟩
    (.name k.isName_text)

theorem Names.finishable : Finishable Names := by
  refine Single.finishable (.name, "x") ⟨rfl, ?_⟩ (.name ⟨'x', [], rfl, by decide, nofun⟩)
  intro k
  cases k <;> decide

theorem Magnitudes.finishable : Finishable Magnitudes := by
  refine Single.finishable (.number, "0") ⟨rfl, by decide +kernel⟩
    (.number (n := ⟨['0'], none, none⟩) ⟨?_, ?_, ?_, ?_⟩)
  · simpa using by decide
  · nofun
  · exact .inl (List.cons_ne_nil _ _)
  · nofun

/-! ## Numbers -/

theorem placeless_mark (kind : TokenKind) : Placeless fun t => t.kind = kind :=
  .of_shape (P := fun s => s.1 = kind) fun _ => Iff.rfl

theorem placeless_word (k : Keyword) : Placeless fun t => t.kind = .name ∧ k.Spells t.text :=
  .of_shape (P := fun s => s.1 = .name ∧ k.Spells s.2) fun _ => Iff.rfl

theorem placeless_name :
    Placeless fun t => t.kind = .name ∧ ∀ k : Keyword, ¬k.Spells t.text :=
  .of_shape (P := fun s => s.1 = .name ∧ ∀ k : Keyword, ¬k.Spells s.2) fun _ => Iff.rfl

theorem placeless_magnitude :
    Placeless fun t => t.kind = .number ∧ (Parser.numeralValue t.text).isFinite = true :=
  .of_shape (P := fun s => s.1 = .number ∧ (Parser.numeralValue s.2).isFinite = true)
    fun _ => Iff.rfl

/-- A number is a dash and a magnitude, or a magnitude. -/
theorem Numbers.eq_add : Numbers = Marks .dash * Magnitudes + Magnitudes := by
  ext u
  rw [Language.mem_add, Language.mem_mul]
  constructor
  · rintro ⟨⟨_ | d, m⟩, rfl⟩
    · exact .inr ⟨m, rfl⟩
    · exact .inl ⟨_, ⟨d, rfl⟩, _, ⟨m, rfl⟩, rfl⟩
  · rintro (⟨_, ⟨d, rfl⟩, _, ⟨m, rfl⟩, rfl⟩ | ⟨m, rfl⟩)
    · exact ⟨⟨some d, m⟩, rfl⟩
    · exact ⟨⟨none, m⟩, rfl⟩

theorem Numbers.finishable : Finishable Numbers := by
  obtain ⟨u, hu, hlexemes⟩ := Magnitudes.finishable
  refine ⟨u, ?_, hlexemes⟩
  rw [Numbers.eq_add]
  exact .inr hu

theorem Numbers.prefixFree : PrefixFree Numbers := by
  intro n u hu hlength v hv r r' heq
  -- a numeral is no dash, so the first token tells the two productions apart
  have apart {a : List TokenShape} {b : List TokenShape} (ha : a ∈ Marks .dash * Magnitudes)
      (hb : b ∈ Magnitudes) (r r' : List TokenShape) : a ++ r ≠ b ++ r' := by
    obtain ⟨_, ⟨d, rfl⟩, m, _, rfl⟩ := Language.mem_mul.1 ha
    obtain ⟨m', rfl⟩ := hb
    intro heq
    have hkind : d.token.kind = m'.token.kind := congrArg Prod.fst (List.cons.inj heq).1
    rw [d.sort_token, m'.sort_token.1] at hkind
    cases hkind
  rw [Numbers.eq_add, Language.mem_add] at hu hv
  rcases hu with hu | hu
  · rcases hv with hv | hv
    · exact ((Single.prefixFree _ n).mul (Single.prefixFree _ n)) u hu hlength v hv r r' heq
    · exact absurd heq (apart hu hv r r')
  · rcases hv with hv | hv
    · exact absurd heq.symm (apart hv hu r' r)
    · exact Single.prefixFree _ n u hu hlength v hv r r' heq

theorem NumbersAfter.prefixFree (mark : TokenKind) : PrefixFree (NumbersAfter mark) :=
  fun n => (Single.prefixFree _ n).mul (Numbers.prefixFree n)

theorem NumbersAfter.finishable (mark : TokenKind) : Finishable (NumbersAfter mark) :=
  (Marks.finishable mark).mul Numbers.finishable

/-! ## Expressions -/

/-- What may follow the first token of an expression, which is the given keyword or a name. -/
def Continuations : Option Keyword → Language TokenShape
  | none | some .empty => 1
  | some .point | some .line =>
    NumbersAfter .leftParen * (NumbersAfter .comma * Marks .rightParen)
  | some .vline => NumbersAfter .leftParen * Marks .rightParen
  | some .segment =>
    NumbersAfter .leftParen * (NumbersAfter .comma * (NumbersAfter .comma *
      (NumbersAfter .comma * Marks .rightParen)))
  | some .intersect =>
    Marks .leftParen * (Expressions * (Marks .comma * (Expressions * Marks .rightParen)))
  | some .shift =>
    NumbersAfter .leftParen * (NumbersAfter .comma * (Marks .comma *
      (Expressions * Marks .rightParen)))
  | some .let => Names * (Marks .equal * (Expressions * (Words .in * Expressions)))
  | some .in => 0

theorem Expressions.nil_notMem : [] ∉ Expressions := by
  rintro ⟨d, hd⟩
  obtain ⟨t, us, hcons, _⟩ := d.exists_cons
  rw [hcons] at hd
  cases hd

/-- What follows the first token of a derivation is a continuation of it. -/
theorem Grammar.Tree.exists_continuation (d : Tree) :
    ∃ (t : Token) (us : List Token), d.tokens = t :: us ∧ t.kind = .name ∧
      us.map Token.shape ∈ Continuations (Keyword.ofWord? t.text) := by
  have word {k : Keyword} (w : Word k) {us : List Token} {u : List TokenShape}
      (hu : u ∈ Continuations (some k)) (heq : us.map Token.shape = u) :
      ∃ (t : Token) (vs : List Token), w.token :: us = t :: vs ∧ t.kind = .name ∧
        vs.map Token.shape ∈ Continuations (Keyword.ofWord? t.text) := by
    refine ⟨w.token, us, rfl, w.sort_token.1, ?_⟩
    rw [Keyword.ofWord?_eq_some_iff.2 w.sort_token.2, heq]
    exact hu
  have mark {kind : TokenKind} (m : Mark kind) : [m.token.shape] ∈ Marks kind := ⟨m, rfl⟩
  have number (n : Number) : n.tokens.map Token.shape ∈ Numbers := ⟨n, rfl⟩
  have after {kind : TokenKind} (m : Mark kind) (n : Number) :
      m.token.shape :: n.tokens.map Token.shape ∈ NumbersAfter kind :=
    Language.append_mem_mul (mark m) (number n)
  have tree (a : Tree) : a.tokens.map Token.shape ∈ Expressions := ⟨a, rfl⟩
  cases d with
  | literal v =>
    cases v with
    | empty w => exact word w (u := []) rfl rfl
    | point w l x c y r =>
      exact word w (Language.append_mem_mul (after l x)
        (Language.append_mem_mul (after c y) (mark r))) (by simp)
    | line w l x c y r =>
      exact word w (Language.append_mem_mul (after l x)
        (Language.append_mem_mul (after c y) (mark r))) (by simp)
    | vline w l x r =>
      exact word w (Language.append_mem_mul (after l x) (mark r)) (by simp)
    | segment w l x₁ c₁ y₁ c₂ x₂ c₃ y₂ r =>
      exact word w (Language.append_mem_mul (after l x₁) (Language.append_mem_mul (after c₁ y₁)
        (Language.append_mem_mul (after c₂ x₂)
          (Language.append_mem_mul (after c₃ y₂) (mark r))))) (by simp)
  | intersect w l a c b r =>
    exact word w (Language.append_mem_mul (mark l) (Language.append_mem_mul (tree a)
      (Language.append_mem_mul (mark c) (Language.append_mem_mul (tree b) (mark r))))) (by simp)
  | shift w l dx c₁ dy c₂ a r =>
    exact word w (Language.append_mem_mul (after l dx) (Language.append_mem_mul (after c₁ dy)
      (Language.append_mem_mul (mark c₂) (Language.append_mem_mul (tree a) (mark r))))) (by simp)
  | bind w x q a i b =>
    have hname : [x.token.shape] ∈ Names := ⟨x, rfl⟩
    have hinside : [i.token.shape] ∈ Words .in := ⟨i, rfl⟩
    exact word w (Language.append_mem_mul hname (Language.append_mem_mul (mark q)
      (Language.append_mem_mul (tree a) (Language.append_mem_mul hinside (tree b))))) (by simp)
  | var x =>
    refine ⟨x.token, [], rfl, x.sort_token.1, ?_⟩
    rw [Keyword.ofWord?_eq_none_iff.2 x.sort_token.2]
    exact rfl

/-- A name token and a continuation of it are an expression. -/
theorem Expressions.cons_mem_of_continuation {s : TokenShape} {u : List TokenShape}
    (hname : s.1 = .name) (hu : u ∈ Continuations (Keyword.ofWord? s.2)) :
    s :: u ∈ Expressions := by
  cases hk : Keyword.ofWord? s.2 with
  | none =>
    rw [hk] at hu
    obtain rfl : u = [] := hu
    exact ⟨.var ⟨s.token, hname, Keyword.ofWord?_eq_none_iff.1 hk⟩, rfl⟩
  | some k =>
  -- the pieces of the continuation are the leaves of a derivation that starts with the keyword
  rw [hk] at hu
  have hword : s.token.kind = .name ∧ k.Spells s.token.text :=
    ⟨hname, Keyword.ofWord?_eq_some_iff.1 hk⟩
  have tokens {d : Tree} {us : List Token} (hd : d.tokens = s.token :: us)
      (hus : us.map Token.shape = u) : s :: u ∈ Expressions :=
    ⟨d, by rw [hd, List.map_cons, hus]; rfl⟩
  cases k with
  | empty =>
    obtain rfl : u = [] := hu
    exact tokens (d := .literal (.empty ⟨s.token, hword⟩)) rfl rfl
  | point =>
    obtain ⟨_, ⟨_, ⟨l, rfl⟩, _, ⟨x, rfl⟩, rfl⟩, _, ⟨_, ⟨_, ⟨c, rfl⟩, _, ⟨y, rfl⟩, rfl⟩, _, ⟨r, rfl⟩,
      rfl⟩, rfl⟩ := hu
    exact tokens (d := .literal (.point ⟨s.token, hword⟩ l x c y r)) rfl (by simp)
  | line =>
    obtain ⟨_, ⟨_, ⟨l, rfl⟩, _, ⟨x, rfl⟩, rfl⟩, _, ⟨_, ⟨_, ⟨c, rfl⟩, _, ⟨y, rfl⟩, rfl⟩, _, ⟨r, rfl⟩,
      rfl⟩, rfl⟩ := hu
    exact tokens (d := .literal (.line ⟨s.token, hword⟩ l x c y r)) rfl (by simp)
  | vline =>
    obtain ⟨_, ⟨_, ⟨l, rfl⟩, _, ⟨x, rfl⟩, rfl⟩, _, ⟨r, rfl⟩, rfl⟩ := hu
    exact tokens (d := .literal (.vline ⟨s.token, hword⟩ l x r)) rfl (by simp)
  | segment =>
    obtain ⟨_, ⟨_, ⟨l, rfl⟩, _, ⟨x₁, rfl⟩, rfl⟩, _, ⟨_, ⟨_, ⟨c₁, rfl⟩, _, ⟨y₁, rfl⟩, rfl⟩, _,
      ⟨_, ⟨_, ⟨c₂, rfl⟩, _, ⟨x₂, rfl⟩, rfl⟩, _, ⟨_, ⟨_, ⟨c₃, rfl⟩, _, ⟨y₂, rfl⟩, rfl⟩, _, ⟨r, rfl⟩,
      rfl⟩, rfl⟩, rfl⟩, rfl⟩ := hu
    exact tokens (d := .literal (.segment ⟨s.token, hword⟩ l x₁ c₁ y₁ c₂ x₂ c₃ y₂ r)) rfl (by simp)
  | intersect =>
    obtain ⟨_, ⟨l, rfl⟩, _, ⟨_, ⟨a, rfl⟩, _, ⟨_, ⟨c, rfl⟩, _, ⟨_, ⟨b, rfl⟩, _, ⟨r, rfl⟩, rfl⟩, rfl⟩,
      rfl⟩, rfl⟩ := hu
    exact tokens (d := .intersect ⟨s.token, hword⟩ l a c b r) rfl (by simp)
  | shift =>
    obtain ⟨_, ⟨_, ⟨l, rfl⟩, _, ⟨dx, rfl⟩, rfl⟩, _, ⟨_, ⟨_, ⟨c₁, rfl⟩, _, ⟨dy, rfl⟩, rfl⟩, _,
      ⟨_, ⟨c₂, rfl⟩, _, ⟨_, ⟨a, rfl⟩, _, ⟨r, rfl⟩, rfl⟩, rfl⟩, rfl⟩, rfl⟩ := hu
    exact tokens (d := .shift ⟨s.token, hword⟩ l dx c₁ dy c₂ a r) rfl (by simp)
  | «let» =>
    obtain ⟨_, ⟨x, rfl⟩, _, ⟨_, ⟨q, rfl⟩, _, ⟨_, ⟨a, rfl⟩, _, ⟨_, ⟨i, rfl⟩, _, ⟨b, rfl⟩, rfl⟩, rfl⟩,
      rfl⟩, rfl⟩ := hu
    exact tokens (d := .bind ⟨s.token, hword⟩ x q a i b) rfl (by simp)
  | «in» => exact absurd hu (Language.notMem_zero u)

/-- The first token of an expression is a name, and the rest is what may follow it. -/
theorem Expressions.cons_mem {s : TokenShape} {u : List TokenShape} :
    s :: u ∈ Expressions ↔ s.1 = .name ∧ u ∈ Continuations (Keyword.ofWord? s.2) := by
  constructor
  · rintro ⟨d, hd⟩
    obtain ⟨t, us, hcons, hname, hus⟩ := d.exists_continuation
    rw [hcons] at hd
    obtain ⟨rfl, rfl⟩ := List.cons.inj hd
    exact ⟨hname, hus⟩
  · rintro ⟨hname, hu⟩
    exact cons_mem_of_continuation hname hu

theorem Expressions.finishable : Finishable Expressions := by
  obtain ⟨u, ⟨w, rfl⟩, hlexemes⟩ := Words.finishable .empty
  exact ⟨_, ⟨.literal (.empty w), rfl⟩, hlexemes⟩

/-- If no expression of a length ends within another one, no continuation of that length does. -/
theorem Continuations.prefixFreeUpTo {n : Nat} (h : PrefixFreeUpTo n Expressions)
    (k : Option Keyword) : PrefixFreeUpTo n (Continuations k) := by
  have after (mark : TokenKind) : PrefixFreeUpTo n (NumbersAfter mark) :=
    NumbersAfter.prefixFree mark n
  have one {sort : Token → Prop} : PrefixFreeUpTo n (Single sort) := Single.prefixFree sort n
  cases k with
  | none => exact .one n
  | some k =>
  cases k with
  | empty => exact .one n
  | point => exact (after _).mul ((after _).mul one)
  | line => exact (after _).mul ((after _).mul one)
  | vline => exact (after _).mul one
  | segment => exact (after _).mul ((after _).mul ((after _).mul ((after _).mul one)))
  | intersect => exact one.mul (h.mul (one.mul (h.mul one)))
  | shift => exact (after _).mul ((after _).mul (one.mul (h.mul one)))
  | «let» => exact one.mul (one.mul (h.mul (one.mul h)))
  | «in» =>
    intro u hu
    exact absurd hu (Language.notMem_zero u)

/-- No row starts with two expressions. -/
theorem Expressions.prefixFree : PrefixFree Expressions := by
  intro n
  induction n with
  | zero =>
    intro u hu hlength
    rw [Nat.le_zero, List.length_eq_zero_iff] at hlength
    exact absurd (hlength ▸ hu) nil_notMem
  | succ n ih =>
    intro u hu hlength v hv r r' heq
    cases u with
    | nil => exact absurd hu nil_notMem
    | cons s u =>
    cases v with
    | nil => exact absurd hv nil_notMem
    | cons s' v =>
    obtain ⟨rfl, hrest⟩ := List.cons.inj heq
    rw [List.length_cons, Nat.add_le_add_iff_right] at hlength
    -- both rests continue the same token, and the first of them is shorter
    rw [Continuations.prefixFreeUpTo ih _ u (cons_mem.1 hu).2 hlength v (cons_mem.1 hv).2 r r'
      hrest]

end Planar
