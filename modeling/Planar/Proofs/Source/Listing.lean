import Planar.Proofs.Source.Lexemes

/-!
# Listings read back

A listing gives each binding on the outer spine of an expression a line of its own. Its lines are
the tokens of a derivation that denotes an equal expression.

* `Text.lines_flatMap` — the lines of a text are what it was put together from;
* `exists_programLines` — the lines of a listing are the tokens of a derivation;
* `exists_listing` — every expression that can be written has a listing, and the listing is a
  program that reads as an equal expression.
-/

namespace Planar

open Grammar
open Token (Scans Breaks isGap)

/-! ## Texts of several lines -/

theorem Text.lines_append_feed {cs : List Char} (h : ∀ c ∈ cs, isBreak c = false)
    (rest : List Char) : lines (cs ++ '\n' :: rest) = cs :: lines rest := by
  have hlines := lines_append h (rfl : lines ('\n' :: rest) = [] :: lines rest)
  rwa [List.append_nil] at hlines

/-- The lines of a text are what it was put together from. -/
theorem Text.lines_flatMap {ls : List String} (h : ∀ l ∈ ls, Inline l) :
    lines (ls.flatMap fun l => l.toList ++ ['\n']) = ls.map String.toList := by
  induction ls with
  | nil => rfl
  | cons l ls ih =>
    obtain ⟨hl, hls⟩ := List.forall_mem_cons.1 h
    rw [List.flatMap_cons, List.append_assoc, List.singleton_append, lines_append_feed hl, ih hls,
      List.map_cons]

theorem toList_intercalate_feed {ls : List String} (hne : ls ≠ []) :
    ("\n".intercalate ls ++ "\n").toList = ls.flatMap fun l => l.toList ++ ['\n'] := by
  induction ls with
  | nil => exact absurd rfl hne
  | cons l ls ih =>
    cases ls with
    | nil => simp
    | cons l' ls =>
      have hrest := ih (by simp)
      rw [String.intercalate_cons_cons, String.append_assoc, String.append_assoc,
        String.toList_append, String.toList_append, hrest, List.flatMap_cons]
      simp

/-- Whether a text consists of blanks. -/
def IsBlank (text : String) : Prop := ∀ c ∈ text.toList, c = ' '

instance (text : String) : Decidable (IsBlank text) :=
  decidable_of_iff (text.toList.all (· == ' ')) (by simp [IsBlank])

namespace IsBlank

variable {margin indent : String}

theorem append (h : IsBlank margin) (h' : IsBlank indent) : IsBlank (margin ++ indent) := by
  intro c hc
  rw [String.toList_append, List.mem_append] at hc
  rcases hc with hc | hc
  · exact h c hc
  · exact h' c hc

theorem inline (h : IsBlank margin) : Inline margin := by
  intro c hc
  rw [h c hc]
  decide

/-- Blanks in front of a text add no tokens. -/
theorem scans (h : IsBlank margin) {line col : Nat} {cs : List Char} {ts : List Token}
    (hscans : Scans line (col + margin.toList.length) cs ts) :
    Scans line col (margin.toList ++ cs) ts := by
  unfold IsBlank at h
  generalize margin.toList = blanks at h hscans ⊢
  induction blanks generalizing col with
  | nil => exact hscans
  | cons c blanks ih =>
    obtain ⟨hc, hblanks⟩ := List.forall_mem_cons.1 h
    refine Scans.gap (hc ▸ rfl) (ih hblanks ?_)
    rwa [List.length_cons, Nat.add_comm blanks.length, ← Nat.add_assoc] at hscans

end IsBlank

/-! ## What is listed -/

/-- Whether lines are, wherever they begin in a text, the tokens of a derivation of an expression
equal to `e`. -/
structure Listed (e : Expr Float) (ls : List String) : Prop where
  inline : ∀ l ∈ ls, Inline l
  scans : ∀ line, ∃ d : Tree, d.expr.equal e = true ∧
    Token.scanLines line (ls.map String.toList) = .ok d.tokens

theorem Listed.ne_nil {e : Expr Float} {ls : List String} (h : Listed e ls) : ls ≠ [] := by
  rintro rfl
  obtain ⟨d, _, hscan⟩ := h.scans 1
  obtain ⟨t, us, hcons, _⟩ := d.exists_cons
  rw [hcons] at hscan
  cases hscan

/-- An expression that is written on one line. -/
theorem listed_line {e : Expr Float} {margin text : String} (hmargin : IsBlank margin)
    (h : Spelled Tree.tokens (fun d => d.expr.equal e = true) text) :
    Listed e [margin ++ text] := by
  refine ⟨?_, ?_⟩
  · rintro _ (_ | ⟨_, ⟨⟩⟩)
    exact hmargin.inline.append h.inline
  · intro line
    obtain ⟨d, hd, hscans⟩ := h.scans line (1 + margin.toList.length)
    refine ⟨d, hd, ?_⟩
    rw [List.map_singleton, String.toList_append, Token.scanLines,
      (hmargin.scans hscans).scanLine_eq]
    exact congrArg Except.ok (List.append_nil _)

/-- The line of a binding, up to its body. -/
theorem scans_binding {name margin bound : String} {a : Expr Float} (hmargin : IsBlank margin)
    (hname : IsFreshName name)
    (ha : Spelled Tree.tokens (fun d => d.expr.equal a = true) bound) (line : Nat) :
    ∃ (w : Word .let) (x : Name) (q : Mark .equal) (d : Tree) (i : Word .in),
      x.token.text = name ∧ d.expr.equal a = true ∧
      Scans line 1 (margin ++ "let " ++ name ++ " = " ++ bound ++ " in").toList
        (w.token :: x.token :: q.token :: (d.tokens ++ [i.token])) := by
  obtain ⟨d, hd, hscans⟩ := ha.scans line
    (1 + margin.toList.length + 3 + 1 + name.toList.length + 1 + 1 + 1)
  have htext : (margin ++ "let " ++ name ++ " = " ++ bound ++ " in").toList =
      margin.toList ++ ("let".toList ++ ' ' :: (name.toList ++ ' ' :: '=' :: ' ' ::
        (bound.toList ++ ' ' :: ("in".toList ++ [])))) := by
    simp
  rw [htext]
  exact ⟨Word.put .let line _, Name.put name hname line _, Mark.put .equal '=' line _, d,
    Word.put .in line _, rfl, hd,
    hmargin.scans (Scans.word .let (Breaks.gap rfl _) (Scans.gap rfl (Scans.nameText hname.shape
      (Breaks.gap rfl _) (Scans.gap rfl (Scans.mark rfl (Scans.gap rfl (hscans.append_gap rfl
        (Scans.word .in Breaks.nil (Scans.nil _ _)))))))))⟩

/-- A binding whose body begins on the next line. -/
theorem Listed.bind {name margin bound : String} {a b : Expr Float} {span : Option Span}
    {ls : List String} (hmargin : IsBlank margin) (hname : IsFreshName name)
    (ha : Spelled Tree.tokens (fun d => d.expr.equal a = true) bound) (hb : Listed b ls) :
    Listed (.bind name a b span)
      ((margin ++ "let " ++ name ++ " = " ++ bound ++ " in") :: ls) := by
  refine ⟨List.forall_mem_cons.2 ⟨?_, hb.inline⟩, ?_⟩
  · exact ((((hmargin.inline.append (by decide)).append hname.shape.inline).append
      (by decide)).append ha.inline).append (by decide)
  · intro line
    obtain ⟨w, x, q, da, i, rfl, ea, hscans⟩ := scans_binding hmargin hname ha line
    obtain ⟨db, eb, hbody⟩ := hb.scans (line + 1)
    refine ⟨.bind w x q da i db, ?_, ?_⟩
    · simp only [Tree.expr, Expr.equal, Expr.agree, Bool.and_eq_true]
      exact ⟨⟨beq_self_eq_true _, ea⟩, eb⟩
    · rw [List.map_cons, Token.scanLines, hscans.scanLine_eq, hbody]
      show Except.ok _ = Except.ok _
      rw [Tree.tokens, List.cons_append, List.cons_append, List.cons_append, List.append_assoc,
        List.singleton_append]

/-- The lines of a listing are the tokens of a derivation of an equal expression. -/
theorem exists_programLines {e : Expr Float} (h : e.IsPrintable) {indent margin : String}
    (hindent : IsBlank indent) (hmargin : IsBlank margin) :
    ∃ ls, e.programLines indent margin = .ok ls ∧ Listed e ls := by
  -- only the body of a binding goes on to further lines, under a wider margin
  induction e generalizing margin with
  | bind name a b span _ ihb =>
    obtain ⟨hname, ha, hb⟩ := h
    obtain ⟨bound, hbound, ha⟩ := spelled_line ha
    obtain ⟨ls, hls, hb⟩ := ihb hb (hmargin.append hindent)
    refine ⟨_, ?_, hb.bind hmargin hname ha⟩
    rw [Expr.programLines, hbound, hls]
    rfl
  | placeholder => exact absurd h id
  | _ =>
    obtain ⟨text, htext, hspelled⟩ := spelled_line h
    refine ⟨_, ?_, listed_line hmargin hspelled⟩
    rw [Expr.programLines, htext]
    · rfl
    · nofun

/-- Every expression that can be written has a listing, and the listing is a program that reads as
an equal expression. -/
theorem exists_listing {e : Expr Float} (h : e.IsPrintable) :
    ∃ listing e', e.program Expr.defaultIndent = .ok listing ∧ Expr.parse listing = .ok e' ∧
      e'.equal e = true := by
  obtain ⟨ls, hls, hlisted⟩ := exists_programLines h (show IsBlank Expr.defaultIndent by decide)
    (show IsBlank "" by decide)
  obtain ⟨d, hd, hscans⟩ := hlisted.scans 1
  have hscan : Token.scan ("\n".intercalate ls ++ "\n") = .ok d.tokens := by
    rw [Token.scan, toList_intercalate_feed hlisted.ne_nil, Text.lines_flatMap hlisted.inline,
      hscans]
  refine ⟨"\n".intercalate ls ++ "\n", d.expr, ?_, ?_, hd⟩
  · rw [Expr.program, hls]
    rfl
  · rw [Expr.parse_eq_ok_iff hscan, Parser.program_eq_ok_iff]
    exact ⟨d, rfl, rfl⟩

end Planar
