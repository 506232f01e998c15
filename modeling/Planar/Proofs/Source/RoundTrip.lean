import Planar.Expr.Printer
import Planar.Proofs.Number.Numerals
import Planar.Proofs.Source.Grammar
import Planar.Proofs.Source.Scanning

/-!
# Printed expressions read back

An expression is printed on one line. Wherever its text stands on a line, the text is the tokens of
a derivation that denotes an equal expression.

* `Spelled` — a text is the tokens of a derivation, at every place of a line;
* `spelled_formatNumber`, `spelled_format`, `spelled_line` — numbers, values and expressions are
  printed as what they are;
* `parse_line` — the printed expression is a program, and an equal one.
-/

namespace Planar

open Grammar
open Token (Scans Breaks startsName continuesName)

/-! ## Texts of one line -/

namespace Text

theorem isBreak_of_isDigit {c : Char} (h : isDigit c = true) : isBreak c = false := by
  have hzeros : ∀ z ∈ digitZeros, 0x1e < z ∧ (z + 10 ≤ 0x85 ∨ 0x85 < z) ∧
      (z + 10 ≤ 0x2028 ∨ 0x2029 < z) := by decide
  simp only [isDigit, digitValue?, Option.isSome_map, List.find?_isSome, Bool.and_eq_true,
    decide_eq_true_eq] at h
  obtain ⟨z, hz, hle, hlt⟩ := h
  have := hzeros z hz
  simp only [isBreak, Bool.or_eq_false_iff, Bool.and_eq_false_iff, decide_eq_false_iff_not,
    beq_eq_false_iff_ne]
  omega

theorem isBreak_of_continuesName {c : Char} (h : continuesName c = true) : isBreak c = false := by
  have := Token.toNat_of_continuesName h
  simp only [isBreak, Bool.or_eq_false_iff, Bool.and_eq_false_iff, decide_eq_false_iff_not,
    beq_eq_false_iff_ne]
  omega

end Text

theorem Numeral.IsProper.isBreak_of_mem {n : Numeral} (hn : n.IsProper) {c : Char}
    (hc : c ∈ n.chars) : Text.isBreak c = false := by
  obtain ⟨whole, fraction, exponent⟩ := n
  rw [Numeral.chars, List.mem_append, List.mem_append] at hc
  rcases hc with hc | hc | hc
  · exact Text.isBreak_of_isDigit (hn.whole c hc)
  · cases fraction with
    | none => cases hc
    | some f =>
      rcases List.mem_cons.1 hc with rfl | hc
      · decide
      · exact Text.isBreak_of_isDigit (hn.fraction c hc)
  · cases exponent with
    | none => cases hc
    | some e =>
      have he := hn.exponent e rfl
      rw [Option.elim_some, Exponent.chars, List.cons_append, List.mem_cons, List.mem_append] at hc
      rcases hc with rfl | hc | hc
      · rcases he.mark with hmark | hmark <;> rw [hmark] <;> decide
      · rcases he.sign c (Option.mem_toList.1 hc) with rfl | rfl <;> decide
      · exact Text.isBreak_of_isDigit (he.digits c hc)

/-- Whether a text has no line break. -/
def Inline (text : String) : Prop := ∀ c ∈ text.toList, Text.isBreak c = false

instance (text : String) : Decidable (Inline text) :=
  decidable_of_iff (text.toList.all fun c => !Text.isBreak c) (by simp [Inline])

theorem Inline.append {s t : String} (hs : Inline s) (ht : Inline t) : Inline (s ++ t) := by
  intro c hc
  rw [String.toList_append, List.mem_append] at hc
  rcases hc with hc | hc
  · exact hs c hc
  · exact ht c hc

/-- Whether a word has the shape of a name. -/
def IsName (word : String) : Prop :=
  ∃ c cs, word.toList = c :: cs ∧ startsName c = true ∧ ∀ d ∈ cs, continuesName d = true

theorem IsName.inline {word : String} (h : IsName word) : Inline word := by
  obtain ⟨c, cs, hword, hstart, hcontinue⟩ := h
  intro d hd
  rw [hword] at hd
  rcases List.mem_cons.1 hd with rfl | hd
  · exact Text.isBreak_of_continuesName (Token.continuesName_of_startsName hstart)
  · exact Text.isBreak_of_continuesName (hcontinue d hd)

/-! ## Tokens where they stand -/

/-- The token of a mark. -/
def Grammar.Mark.put (kind : TokenKind) (c : Char) (line col : Nat) : Mark kind :=
  ⟨⟨kind, String.singleton c, ⟨line, col⟩⟩, rfl⟩

/-- The token of a keyword in small letters. -/
def Grammar.Word.put (k : Keyword) (line col : Nat) : Word k :=
  ⟨⟨.name, k.text, ⟨line, col⟩⟩, rfl, Keyword.ofWord?_eq_some_iff.1 k.ofWord?_text⟩

namespace Token

variable {line col : Nat} {cs cs' : List Char} {ts us : List Token} {c : Char} {kind : TokenKind}

theorem Breaks.mark (h : markKind? c = some kind) (cs : List Char) : Breaks (c :: cs) := by
  unfold markKind? at h
  split at h
  case h_6 => cases h
  all_goals exact Breaks.cons (by decide) (by decide) (by decide) cs

theorem Breaks.gap (h : isGap c = true) (cs : List Char) : Breaks (c :: cs) := by
  simp only [isGap, Bool.or_eq_true, beq_iff_eq] at h
  rcases h with (rfl | rfl) | rfl
  all_goals exact Breaks.cons (by decide) (by decide) (by decide) cs

theorem Scans.append_gap (h : Scans line col cs ts) (hgap : isGap c = true)
    (h' : Scans line (col + cs.length + 1) cs' us) : Scans line col (cs ++ c :: cs') (ts ++ us) := by
  exact h.append (Scans.gap hgap h') (Breaks.gap hgap cs')

theorem Scans.append_mark (h : Scans line col cs ts) (hmark : markKind? c = some kind)
    (h' : Scans line (col + cs.length + 1) cs' us) :
    Scans line col (cs ++ c :: cs') (ts ++ (Mark.put kind c line (col + cs.length)).token :: us) := by
  exact h.append (Scans.mark hmark h') (Breaks.mark hmark cs')

theorem Scans.nameText {name : String} (hname : IsName name) (hbreaks : Breaks cs)
    (h : Scans line (col + name.toList.length) cs ts) :
    Scans line col (name.toList ++ cs) (⟨.name, name, ⟨line, col⟩⟩ :: ts) := by
  obtain ⟨c, cs', hchars, hstart, hcontinue⟩ := hname
  have htext : name = String.ofList (c :: cs') := by rw [← hchars, String.ofList_toList]
  rw [hchars] at h ⊢
  rw [htext]
  exact Scans.name hstart hcontinue hbreaks h

theorem Scans.word (k : Keyword) (hbreaks : Breaks cs)
    (h : Scans line (col + k.text.toList.length) cs ts) :
    Scans line col (k.text.toList ++ cs) ((Word.put k line col).token :: ts) := by
  have hname : IsName k.text := by
    cases k <;> exact ⟨_, _, rfl, by decide, List.all_eq_true.1 (by decide)⟩
  exact Scans.nameText hname hbreaks h

end Token

/-! ## What is printed -/

/-- Whether a text is, at every place of a line, the tokens of something of which `P` holds. -/
structure Spelled {D : Type} (tokens : D → List Token) (P : D → Prop) (text : String) : Prop where
  inline : Inline text
  scans : ∀ line col, ∃ d, P d ∧ Scans line col text.toList (tokens d)

/-- Whether a text is a number equal to `x`. -/
def SpellsNumber (x : Float) (text : String) : Prop :=
  Spelled Number.tokens (fun n => Scalar.eq n.value x = true) text

/-- A proper numeral of a finite double is a magnitude wherever it stands. -/
theorem Numeral.IsProper.exists_magnitude {n : Numeral} (hn : n.IsProper)
    (hfinite : n.toFloat.isFinite = true) (line col : Nat) :
    ∃ m : Magnitude, Parser.numeralValue m.token.text = n.toFloat ∧
      Scans line col n.chars [m.token] := by
  have hvalue : Parser.numeralValue (String.ofList n.chars) = n.toFloat := by
    rw [Parser.numeralValue, String.toList_ofList, Numeral.ofChars?_chars hn]
  have hscans := Scans.number hn Breaks.nil (Scans.nil line (col + n.chars.length))
  rw [List.append_nil] at hscans
  rw [← hvalue] at hfinite
  exact ⟨⟨⟨.number, String.ofList n.chars, ⟨line, col⟩⟩, rfl, hfinite⟩, hvalue, hscans⟩

theorem Spelled.mono {D : Type} {tokens : D → List Token} {P Q : D → Prop} {text : String}
    (h : Spelled tokens P text) (hPQ : ∀ d, P d → Q d) : Spelled tokens Q text := by
  refine ⟨h.inline, ?_⟩
  intro line col
  obtain ⟨d, hd, hscans⟩ := h.scans line col
  exact ⟨d, hPQ d hd, hscans⟩

/-- A finite number is printed as a numeral of the same value, after a dash if it is negative and no
zero. -/
theorem spelled_of_ofFloat {x : Float} {negative : Bool} {m : ℕ} {q : ℤ}
    (hx : Double.ofFloat x = .finite negative m q) :
    ∃ text, formatNumber x = .ok text ∧ Spelled Number.tokens
      (fun n => Scalar.eq n.value x = true ∧ n.dash.isSome = (negative && m != 0)) text := by
  obtain ⟨n, hn, htext, hvalue⟩ := exists_numeral_of_ofFloat hx
  have hmagnitude := hn.exists_magnitude ((Double.isFinite_iff _).2 ⟨_, _, _, hvalue⟩)
  refine ⟨_, by rw [formatNumber, htext], ?_, ?_⟩
  · intro c hc
    rw [String.toList_ofList, signed] at hc
    split at hc
    · rcases List.mem_cons.1 hc with rfl | hc
      · decide
      · exact hn.isBreak_of_mem hc
    · exact hn.isBreak_of_mem hc
  · intro line col
    rw [String.toList_ofList, signed]
    cases hsign : negative && m != 0 with
    | false =>
      obtain ⟨magnitude, hm, hscans⟩ := hmagnitude line col
      refine ⟨⟨none, magnitude⟩, ⟨?_, rfl⟩, hscans⟩
      rw [Number.value, hm]
      refine Double.beq_of_ofFloat hvalue hx ?_
      intro hne
      have hpositive : negative = false := by simpa [hne] using hsign
      exact hpositive.symm
    | true =>
      obtain ⟨magnitude, hm, hscans⟩ := hmagnitude line (col + 1)
      refine ⟨⟨some (Mark.put .dash '-' line col), magnitude⟩, ⟨?_, rfl⟩, Scans.mark rfl hscans⟩
      rw [Number.value, hm]
      refine Double.beq_of_ofFloat (Double.ofFloat_neg hvalue) hx ?_
      intro _
      rw [Bool.and_eq_true] at hsign
      rw [hsign.1]
      rfl

/-- A finite number is printed as a number equal to it. -/
theorem spelled_formatNumber {x : Float} (h : x.isFinite = true) :
    ∃ text, formatNumber x = .ok text ∧ SpellsNumber x text := by
  obtain ⟨negative, m, q, hx⟩ := (Double.isFinite_iff x).1 h
  obtain ⟨text, htext, hspelled⟩ := spelled_of_ofFloat hx
  exact ⟨text, htext, hspelled.mono fun _ hn => hn.1⟩

theorem exists_texts {xs : List Float} (hfinite : ∀ x ∈ xs, x.isFinite = true) :
    ∃ texts, xs.mapM formatNumber = .ok texts ∧ List.Forall₂ SpellsNumber xs texts := by
  induction xs with
  | nil => exact ⟨[], rfl, .nil⟩
  | cons x xs ih =>
    obtain ⟨text, htext, hx⟩ := spelled_formatNumber (hfinite x List.mem_cons_self)
    obtain ⟨texts, htexts, hxs⟩ := ih fun y hy => hfinite y (List.mem_cons_of_mem x hy)
    refine ⟨text :: texts, ?_, .cons hx hxs⟩
    rw [List.mapM_cons, htext, htexts]
    rfl

theorem inline_intercalate {xs : List Float} {texts : List String}
    (h : List.Forall₂ SpellsNumber xs texts) : Inline (", ".intercalate texts) := by
  induction h with
  | nil => decide
  | @cons x text xs texts hx hxs ih =>
    cases texts with
    | nil =>
      rw [String.intercalate_singleton]
      exact hx.inline
    | cons t ts =>
      rw [String.intercalate_cons_cons]
      exact (hx.inline.append (by decide)).append ih

/-- A keyword with two numbers between parentheses. -/
theorem scans_pair (k : Keyword) {x y : Float} {tx ty : String} (hx : SpellsNumber x tx)
    (hy : SpellsNumber y ty) (line col : Nat) :
    ∃ (w : Word k) (l : Mark .leftParen) (m : Number) (c : Mark .comma) (n : Number)
      (r : Mark .rightParen), Scalar.eq m.value x = true ∧ Scalar.eq n.value y = true ∧
      Scans line col (k.text ++ "(" ++ ", ".intercalate [tx, ty] ++ ")").toList
        (w.token :: l.token :: (m.tokens ++ c.token :: (n.tokens ++ [r.token]))) := by
  obtain ⟨m, hm, sm⟩ := hx.scans line (col + k.text.toList.length + 1)
  obtain ⟨n, hn, sn⟩ :=
    hy.scans line (col + k.text.toList.length + 1 + tx.toList.length + 1 + 1)
  have htext : (k.text ++ "(" ++ ", ".intercalate [tx, ty] ++ ")").toList =
      k.text.toList ++ '(' :: (tx.toList ++ ',' :: ' ' :: (ty.toList ++ [')'])) := by
    simp
  rw [htext]
  exact ⟨Word.put k line col, Mark.put .leftParen '(' line _, m, Mark.put .comma ',' line _, n,
    Mark.put .rightParen ')' line _, hm, hn,
    Scans.word k (Breaks.mark rfl _) (Scans.mark rfl (sm.append_mark rfl
      (Scans.gap rfl (sn.append_mark rfl (Scans.nil _ _)))))⟩

theorem scans_literal {v : Value Float} {xs : List Float} {texts : List String}
    (hxs : v.coordinates? = some xs) (hne : xs ≠ []) (h : List.Forall₂ SpellsNumber xs texts)
    (line col : Nat) :
    ∃ l : Literal, l.value.equal v = true ∧
      Scans line col (v.kind ++ "(" ++ ", ".intercalate texts ++ ")").toList l.tokens := by
  cases v with
  | empty =>
    cases hxs
    exact absurd rfl hne
  | point p =>
    cases hxs
    obtain _ | ⟨hx, _ | ⟨hy, _ | _⟩⟩ := h
    obtain ⟨w, l, x, c, y, r, ex, ey, hscans⟩ := scans_pair .point hx hy line col
    refine ⟨.point w l x c y r, ?_, hscans⟩
    simp [Literal.value, Value.equal, Value.agree, Value.coordinates?, Value.kind, ex, ey]
  | line l =>
    cases hxs
    obtain _ | ⟨hm, _ | ⟨hb, _ | _⟩⟩ := h
    obtain ⟨w, l, m, c, b, r, em, eb, hscans⟩ := scans_pair .line hm hb line col
    refine ⟨.line w l m c b r, ?_, hscans⟩
    simp [Literal.value, Value.equal, Value.agree, Value.coordinates?, Value.kind, em, eb]
  | vertical w =>
    cases hxs
    obtain _ | ⟨hx, _ | _⟩ := h
    rename_i tx
    obtain ⟨x, ex, sx⟩ := hx.scans line (col + 5 + 1)
    have htext : ("vline" ++ "(" ++ ", ".intercalate [tx] ++ ")").toList =
        "vline".toList ++ '(' :: (tx.toList ++ [')']) := by
      simp
    rw [Value.kind, htext]
    refine ⟨.vline (Word.put .vline line col) (Mark.put .leftParen '(' line (col + 5)) x
      (Mark.put .rightParen ')' line _), ?_,
      Scans.word .vline (Breaks.mark rfl _) (Scans.mark rfl (sx.append_mark rfl
        (Scans.nil _ _)))⟩
    simp [Literal.value, Value.equal, Value.agree, Value.coordinates?, Value.kind, ex]
  | segment s =>
    cases hxs
    obtain _ | ⟨hx₁, _ | ⟨hy₁, _ | ⟨hx₂, _ | ⟨hy₂, _ | _⟩⟩⟩⟩ := h
    rename_i tx₁ ty₁ tx₂ ty₂
    obtain ⟨x₁, ex₁, sx₁⟩ := hx₁.scans line (col + 7 + 1)
    obtain ⟨y₁, ey₁, sy₁⟩ := hy₁.scans line (col + 7 + 1 + tx₁.toList.length + 1 + 1)
    obtain ⟨x₂, ex₂, sx₂⟩ := hx₂.scans line
      (col + 7 + 1 + tx₁.toList.length + 1 + 1 + ty₁.toList.length + 1 + 1)
    obtain ⟨y₂, ey₂, sy₂⟩ := hy₂.scans line
      (col + 7 + 1 + tx₁.toList.length + 1 + 1 + ty₁.toList.length + 1 + 1 +
        tx₂.toList.length + 1 + 1)
    have htext : ("segment" ++ "(" ++ ", ".intercalate [tx₁, ty₁, tx₂, ty₂] ++ ")").toList =
        "segment".toList ++ '(' :: (tx₁.toList ++ ',' :: ' ' :: (ty₁.toList ++ ',' :: ' ' ::
          (tx₂.toList ++ ',' :: ' ' :: (ty₂.toList ++ [')'])))) := by
      simp
    rw [Value.kind, htext]
    refine ⟨.segment (Word.put .segment line col) (Mark.put .leftParen '(' line (col + 7)) x₁
      (Mark.put .comma ',' line _) y₁ (Mark.put .comma ',' line _) x₂
      (Mark.put .comma ',' line _) y₂ (Mark.put .rightParen ')' line _), ?_,
      Scans.word .segment (Breaks.mark rfl _) (Scans.mark rfl (sx₁.append_mark rfl
        (Scans.gap rfl (sy₁.append_mark rfl (Scans.gap rfl (sx₂.append_mark rfl
        (Scans.gap rfl (sy₂.append_mark rfl (Scans.nil _ _)))))))))⟩
    simp [Literal.value, Value.equal, Value.agree, Value.coordinates?, Value.kind, ex₁, ey₁, ex₂,
        ey₂]
  | placeholder => cases hxs

/-- A value with finite coordinates is printed as a literal of the same value. -/
theorem spelled_format {v : Value Float} {xs : List Float} (hxs : v.coordinates? = some xs)
    (hfinite : ∀ x ∈ xs, x.isFinite = true) :
    ∃ text, v.format = .ok text ∧
      Spelled Literal.tokens (fun l => l.value.equal v = true) text := by
  have hcoordinates : v.coordinates = .ok xs := by rw [Value.coordinates, hxs]
  obtain ⟨texts, htexts, hspelled⟩ := exists_texts hfinite
  by_cases hne : xs = []
  · subst hne
    cases v with
    | empty =>
      refine ⟨"empty", rfl, by decide, ?_⟩
      intro line col
      exact ⟨.empty (Word.put .empty line col), rfl, Scans.word .empty Breaks.nil (Scans.nil _ _)⟩
    | _ => cases hxs
  · refine ⟨v.kind ++ "(" ++ ", ".intercalate texts ++ ")", ?_, ?_, scans_literal hxs hne hspelled⟩
    · rw [Value.format, hcoordinates]
      show (if xs.isEmpty = true then _ else _) = _
      rw [if_neg (by simpa using hne)]
      show xs.mapM formatNumber >>= _ = _
      rw [htexts]
      rfl
    · have hkind : Inline v.kind := by cases v <;> rw [Value.kind] <;> decide
      exact ((hkind.append (by decide)).append (inline_intercalate hspelled)).append (by decide)

/-! ## Expressions that can be written -/

/-- Whether a word may name something in source text. -/
structure IsFreshName (name : String) : Prop where
  shape : IsName name
  fresh : ∀ k : Keyword, ¬k.Spells name

/-- Whether an expression has a text: its coordinates and offsets are finite and its names are not
reserved. -/
def Expr.IsPrintable : Expr Float → Prop
  | literal v _ => ∃ xs, v.coordinates? = some xs ∧ ∀ x ∈ xs, x.isFinite = true
  | var name _ => IsFreshName name
  | intersect a b _ => a.IsPrintable ∧ b.IsPrintable
  | bind name a b _ => IsFreshName name ∧ a.IsPrintable ∧ b.IsPrintable
  | shift dx dy a _ => dx.isFinite = true ∧ dy.isFinite = true ∧ a.IsPrintable
  | placeholder => False

/-- The token of a name. -/
def Grammar.Name.put (name : String) (h : IsFreshName name) (line col : Nat) : Name :=
  ⟨⟨.name, name, ⟨line, col⟩⟩, rfl, h.fresh⟩

/-- An expression is printed as a derivation of an equal expression. -/
theorem spelled_line {e : Expr Float} (h : e.IsPrintable) :
    ∃ text, e.line = .ok text ∧ Spelled Tree.tokens (fun d => d.expr.equal e = true) text := by
  induction e with
  | literal v span =>
    obtain ⟨xs, hxs, hfinite⟩ := h
    obtain ⟨text, htext, hspelled⟩ := spelled_format hxs hfinite
    refine ⟨text, htext, hspelled.inline, ?_⟩
    intro line col
    obtain ⟨l, hl, hscans⟩ := hspelled.scans line col
    exact ⟨.literal l, hl, hscans⟩
  | var name span =>
    refine ⟨name, rfl, h.shape.inline, ?_⟩
    intro line col
    have hscans := Scans.nameText h.shape Breaks.nil (Scans.nil line (col + name.toList.length))
    rw [List.append_nil] at hscans
    exact ⟨.var (Name.put name h line col), beq_self_eq_true name, hscans⟩
  | intersect a b span iha ihb =>
    obtain ⟨ta, hta, ha⟩ := iha h.1
    obtain ⟨tb, htb, hb⟩ := ihb h.2
    refine ⟨"intersect(" ++ ta ++ ", " ++ tb ++ ")", ?_, ?_, ?_⟩
    · rw [Expr.line, hta, htb]
      rfl
    · exact ((((by decide : Inline "intersect(").append ha.inline).append (by decide)).append
        hb.inline).append (by decide)
    · intro line col
      obtain ⟨da, ea, sa⟩ := ha.scans line (col + 9 + 1)
      obtain ⟨db, eb, sb⟩ := hb.scans line (col + 9 + 1 + ta.toList.length + 1 + 1)
      have htext : ("intersect(" ++ ta ++ ", " ++ tb ++ ")").toList =
          "intersect".toList ++ '(' :: (ta.toList ++ ',' :: ' ' :: (tb.toList ++ [')'])) := by
        simp
      rw [htext]
      refine ⟨.intersect (Word.put .intersect line col) (Mark.put .leftParen '(' line (col + 9)) da
        (Mark.put .comma ',' line _) db (Mark.put .rightParen ')' line _), ?_,
        Scans.word .intersect (Breaks.mark rfl _) (Scans.mark rfl (sa.append_mark rfl
          (Scans.gap rfl (sb.append_mark rfl (Scans.nil _ _)))))⟩
      exact Bool.and_eq_true_iff.2 ⟨ea, eb⟩
  | bind name a b span iha ihb =>
    obtain ⟨hname, ha, hb⟩ := h
    obtain ⟨ta, hta, ha⟩ := iha ha
    obtain ⟨tb, htb, hb⟩ := ihb hb
    refine ⟨"let " ++ name ++ " = " ++ ta ++ " in " ++ tb, ?_, ?_, ?_⟩
    · rw [Expr.line, hta, htb]
      rfl
    · exact (((((by decide : Inline "let ").append hname.shape.inline).append (by decide)).append
        ha.inline).append (by decide)).append hb.inline
    · intro line col
      obtain ⟨da, ea, sa⟩ := ha.scans line (col + 3 + 1 + name.toList.length + 1 + 1 + 1)
      obtain ⟨db, eb, sb⟩ := hb.scans line
        (col + 3 + 1 + name.toList.length + 1 + 1 + 1 + ta.toList.length + 1 + 2 + 1)
      have htext : ("let " ++ name ++ " = " ++ ta ++ " in " ++ tb).toList =
          "let".toList ++ ' ' :: (name.toList ++ ' ' :: '=' :: ' ' ::
            (ta.toList ++ ' ' :: ("in".toList ++ ' ' :: tb.toList))) := by
        simp
      rw [htext]
      refine ⟨.bind (Word.put .let line col) (Name.put name hname line (col + 3 + 1))
        (Mark.put .equal '=' line _) da (Word.put .in line _) db, ?_,
        Scans.word .let (Breaks.gap rfl _) (Scans.gap rfl (Scans.nameText hname.shape
          (Breaks.gap rfl _) (Scans.gap rfl (Scans.mark rfl (Scans.gap rfl (sa.append_gap rfl
            (Scans.word .in (Breaks.gap rfl _) (Scans.gap rfl sb))))))))⟩
      simp only [Tree.expr, Expr.equal, Expr.agree, Bool.and_eq_true]
      exact ⟨⟨beq_self_eq_true name, ea⟩, eb⟩
  | shift dx dy a span ih =>
    obtain ⟨hdx, hdy, ha⟩ := h
    obtain ⟨tx, htx, hx⟩ := spelled_formatNumber hdx
    obtain ⟨ty, hty, hy⟩ := spelled_formatNumber hdy
    obtain ⟨ta, hta, ha⟩ := ih ha
    refine ⟨"shift(" ++ tx ++ ", " ++ ty ++ ", " ++ ta ++ ")", ?_, ?_, ?_⟩
    · rw [Expr.line, htx, hty, hta]
      rfl
    · exact ((((((by decide : Inline "shift(").append hx.inline).append (by decide)).append
        hy.inline).append (by decide)).append ha.inline).append (by decide)
    · intro line col
      obtain ⟨nx, ex, sx⟩ := hx.scans line (col + 5 + 1)
      obtain ⟨ny, ey, sy⟩ := hy.scans line (col + 5 + 1 + tx.toList.length + 1 + 1)
      obtain ⟨da, ea, sa⟩ := ha.scans line
        (col + 5 + 1 + tx.toList.length + 1 + 1 + ty.toList.length + 1 + 1)
      have htext : ("shift(" ++ tx ++ ", " ++ ty ++ ", " ++ ta ++ ")").toList =
          "shift".toList ++ '(' :: (tx.toList ++ ',' :: ' ' :: (ty.toList ++ ',' :: ' ' ::
            (ta.toList ++ [')']))) := by
        simp
      rw [htext]
      refine ⟨.shift (Word.put .shift line col) (Mark.put .leftParen '(' line (col + 5)) nx
        (Mark.put .comma ',' line _) ny (Mark.put .comma ',' line _) da
        (Mark.put .rightParen ')' line _), ?_,
        Scans.word .shift (Breaks.mark rfl _) (Scans.mark rfl (sx.append_mark rfl
          (Scans.gap rfl (sy.append_mark rfl (Scans.gap rfl (sa.append_mark rfl
            (Scans.nil _ _)))))))⟩
      simp only [Tree.expr, Expr.equal, Expr.agree, Bool.and_eq_true]
      exact ⟨⟨ex, ey⟩, ea⟩
  | placeholder => exact absurd h id

/-- Every expression that can be written is printed, and what is printed is a program that reads as
an equal expression. -/
theorem parse_line (e : Expr Float) (h : e.IsPrintable) :
    ∃ text e', e.line = .ok text ∧ Expr.parse text = .ok e' ∧ e'.equal e = true := by
  obtain ⟨text, htext, hspelled⟩ := spelled_line h
  obtain ⟨d, hd, hscans⟩ := hspelled.scans 1 1
  have hne : text.toList ≠ [] := by
    intro hnil
    obtain ⟨t, us, hcons, _⟩ := d.exists_cons
    have hempty := hscans.scanLine_eq
    rw [hnil, hcons, Token.scanLine] at hempty
    cases hempty
  have hscan : Token.scan text = .ok d.tokens := by
    have := hscans.scan_ofList hne hspelled.inline
    rwa [String.ofList_toList] at this
  refine ⟨text, d.expr, htext, ?_, hd⟩
  rw [Expr.parse_eq_ok_iff hscan, Parser.program_eq_ok_iff]
  exact ⟨d, rfl, rfl⟩

theorem parse_line_nested :
    ∃ text e', Expr.line (.bind "a" (.bind "b" (.literal (.vertical ⟨-1e22⟩) none) (.var "b" none)
        none) (.shift (-0.0) 1e-7 (.bind "In1" (.literal .empty none) (.var "a" none) none) none)
        none) = .ok text ∧ Expr.parse text = .ok e' ∧
      e'.equal (.bind "a" (.bind "b" (.literal (.vertical ⟨-1e22⟩) none) (.var "b" none) none)
        (.shift (-0.0) 1e-7 (.bind "In1" (.literal .empty none) (.var "a" none) none) none)
        none) = true := by
  have ha : IsFreshName "a" := ⟨⟨'a', [], rfl, by decide, nofun⟩, by intro k; cases k <;> decide⟩
  have hb : IsFreshName "b" := ⟨⟨'b', [], rfl, by decide, nofun⟩, by intro k; cases k <;> decide⟩
  have hc : IsFreshName "In1" :=
    ⟨⟨'I', ['n', '1'], rfl, by decide, List.all_eq_true.1 (by decide)⟩, by intro k; cases k <;> decide⟩
  refine parse_line _ ⟨ha, ⟨hb, ⟨_, rfl, ?_⟩, hb⟩, by decide, by decide, hc, ⟨_, rfl, ?_⟩, ha⟩
  · simp only [List.mem_singleton, forall_eq]
    decide
  · simp

end Planar
