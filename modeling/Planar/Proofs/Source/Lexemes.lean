import Planar.Proofs.Source.RoundTrip

/-!
# Lexemes and their places

A scanned token is a numeral, a name or a mark, and it begins after the tokens before it. Nothing
else is asked of a row of tokens: apart from the places, every row of numerals, names and marks is
what some text is scanned as.

* `IsLexeme` — the texts that the scanner takes, with their kinds;
* `Token.scanLine_cons` — what a step of the scanner can do;
* `Token.isLexeme_of_scan`, `Token.standsIn_of_scan`, `Token.pairwise_of_scan` — the texts, the
  places and the order of scanned tokens;
* `Token.exists_scan` — every row of lexemes is scanned from some text;
* `Expr.isPrintable_of_parse` — the expression of a program can be written.
-/

namespace Planar

open Grammar
open Token (Scans Breaks)

/-- Whether a place comes before another in source order. -/
def Span.Before (a b : Span) : Prop := a.line < b.line ∨ a.line = b.line ∧ a.col < b.col

/-- A sequence that succeeds has a first part that does. -/
theorem exists_of_bind_eq_ok {ε β γ : Type} {first : Except ε β} {next : β → Except ε γ} {c : γ}
    (h : (first >>= next) = .ok c) : ∃ b, first = .ok b ∧ next b = .ok c := by
  cases first with
  | error fault => cases h
  | ok b => exact ⟨b, rfl, h⟩

/-! ## Numerals and names that are scanned -/

namespace Numeral

theorem isProper_of_scanExponentDigits {mark : Char} {sign : Option Char} {cs rest : List Char}
    {e : Exponent} (hmark : mark = 'e' ∨ mark = 'E') (hsign : ∀ c ∈ sign, c = '+' ∨ c = '-')
    (h : scanExponentDigits mark sign cs = some (e, rest)) : e.IsProper := by
  unfold scanExponentDigits at h
  split at h
  · cases h
  · next hne =>
    cases h
    exact ⟨hmark, hsign, fun c hc => List.mem_takeWhile_imp hc, by simpa using hne⟩

theorem isProper_of_scanExponent {cs rest : List Char} {e : Exponent}
    (h : scanExponent cs = some (e, rest)) : e.IsProper := by
  unfold scanExponent at h
  split at h
  case h_2 => cases h
  split at h
  case isFalse => cases h
  case isTrue hmark =>
  split at h
  case h_2 => cases h
  split at h
  case isTrue hsign =>
    refine isProper_of_scanExponentDigits hmark ?_ h
    rintro c ⟨⟩
    exact hsign
  case isFalse => exact isProper_of_scanExponentDigits hmark (fun _ hc => by cases hc) h

theorem isProper_finish {whole cs : List Char} {fraction : Option (List Char)}
    (hwhole : ∀ c ∈ whole, Text.isDigit c = true)
    (hfraction : ∀ c ∈ fraction.getD [], Text.isDigit c = true)
    (hne : whole ≠ [] ∨ fraction.getD [] ≠ []) : (finish whole fraction cs).1.IsProper := by
  unfold finish
  split
  · next e rest he =>
    refine ⟨hwhole, hfraction, hne, ?_⟩
    rintro _ ⟨⟩
    exact isProper_of_scanExponent he
  · exact ⟨hwhole, hfraction, hne, nofun⟩

/-- What is scanned as a numeral has the shape of one. -/
theorem isProper_of_scan {cs rest : List Char} {n : Numeral} (h : scan cs = some (n, rest)) :
    n.IsProper := by
  have digits : ∀ cs : List Char, ∀ c ∈ cs.takeWhile Text.isDigit, Text.isDigit c = true :=
    fun _ _ hc => List.mem_takeWhile_imp hc
  unfold scan at h
  dsimp only at h
  split at h
  · next more _ =>
    split at h
    · cases h
    · next hne =>
      have hproper : n = (finish _ (some (more.takeWhile Text.isDigit)) _).1 :=
        congrArg Prod.fst (Option.some.inj h).symm
      rw [hproper]
      refine isProper_finish (digits cs) (digits more) ?_
      simpa [or_iff_not_imp_left] using hne
  · split at h
    · cases h
    · next hne =>
      have hproper : n = (finish _ none _).1 := congrArg Prod.fst (Option.some.inj h).symm
      rw [hproper]
      exact isProper_finish (digits cs) nofun (.inl (by simpa using hne))

end Numeral

theorem Token.isName_of_scanName {cs name rest : List Char} (h : scanName cs = some (name, rest)) :
    IsName (String.ofList name) := by
  unfold scanName at h
  split at h
  · split at h
    · next c cs hstart =>
      cases h
      exact ⟨c, _, String.toList_ofList, hstart, fun d hd => List.mem_takeWhile_imp hd⟩
    · cases h
  · cases h

/-- A name is taken to its end. -/
theorem Token.continuesName_of_scanName {cs name rest : List Char}
    (h : scanName cs = some (name, rest)) : ∀ c ∈ rest.head?, continuesName c = false := by
  unfold scanName at h
  split at h
  · next c cs =>
    split at h
    · cases h
      intro d hd
      have hstop := List.head?_dropWhile_not continuesName cs
      rwa [Option.mem_def.1 hd] at hstop
    · cases h
  · cases h

theorem Token.markKind?_ne_name (c : Char) : markKind? c ≠ some .name := by
  unfold markKind?
  split <;> nofun

/-! ## Lexemes -/

/-- The texts that are scanned as one token, each with its kind. -/
inductive IsLexeme : TokenKind → String → Prop where
  | number {n : Numeral} (h : n.IsProper) : IsLexeme .number (String.ofList n.chars)
  | name {word : String} (h : IsName word) : IsLexeme .name word
  | mark {c : Char} {kind : TokenKind} (h : Token.markKind? c = some kind) :
      IsLexeme kind (String.singleton c)

theorem IsLexeme.isName {word : String} (h : IsLexeme .name word) : IsName word := by
  generalize hkind : TokenKind.name = kind at h
  cases h with
  | number => cases hkind
  | name hname => exact hname
  | mark hmark =>
    subst hkind
    exact absurd hmark (Token.markKind?_ne_name _)

theorem IsLexeme.inline {kind : TokenKind} {text : String} (h : IsLexeme kind text) :
    Inline text := by
  cases h with
  | number hn =>
    intro c hc
    rw [String.toList_ofList] at hc
    exact hn.isBreak_of_mem hc
  | name hname => exact hname.inline
  | @mark c _ hmark =>
    unfold Token.markKind? at hmark
    split at hmark
    case h_6 => cases hmark
    all_goals decide

namespace Token

/-- The kind and the text of a token, without its place. -/
def shape (t : Token) : TokenKind × String := (t.kind, t.text)

/-- A lexeme is a token wherever it stands. -/
theorem scans_lexeme {kind : TokenKind} {text : String} (h : IsLexeme kind text)
    (line col : Nat) : Scans line col text.toList [⟨kind, text, ⟨line, col⟩⟩] := by
  cases h with
  | @number n hn =>
    have hscans := Scans.number hn Breaks.nil (Scans.nil line (col + n.chars.length))
    rw [List.append_nil] at hscans
    rwa [String.toList_ofList]
  | name hname =>
    have hscans := Scans.nameText hname Breaks.nil (Scans.nil line (col + text.toList.length))
    rwa [List.append_nil] at hscans
  | @mark c _ hmark =>
    rw [String.toList_singleton]
    exact Scans.mark hmark (Scans.nil line (col + 1))

/-- Every row of lexemes is scanned from some text. -/
theorem exists_scan (shapes : List (TokenKind × String)) (h : ∀ s ∈ shapes, IsLexeme s.1 s.2) :
    ∃ text ts, scan text = .ok ts ∧ ts.map shape = shapes := by
  -- a blank after each lexeme keeps it apart from the next
  have hline : ∀ col, ∃ ts, ts.map shape = shapes ∧
      Scans 1 col (shapes.flatMap fun s => s.2.toList ++ [' ']) ts := by
    induction shapes with
    | nil => exact fun col => ⟨[], rfl, Scans.nil 1 col⟩
    | cons s shapes ih =>
      intro col
      obtain ⟨hs, hshapes⟩ := List.forall_mem_cons.1 h
      obtain ⟨ts, hts, hscans⟩ := ih hshapes (col + s.2.toList.length + 1)
      refine ⟨⟨s.1, s.2, ⟨1, col⟩⟩ :: ts, by rw [List.map_cons, hts]; rfl, ?_⟩
      rw [List.flatMap_cons, List.append_assoc]
      exact (scans_lexeme hs 1 col).append_gap rfl hscans
  cases shapes with
  | nil => exact ⟨"", [], by decide, rfl⟩
  | cons s shapes =>
    obtain ⟨ts, hts, hscans⟩ := hline 1
    refine ⟨_, ts, hscans.scan_ofList ?_ ?_, hts⟩
    · simp
    · intro c hc
      obtain ⟨s, hs, hc⟩ := List.mem_flatMap.1 hc
      rcases List.mem_append.1 hc with hc | hc
      · exact (h s hs).inline c hc
      · rw [List.mem_singleton.1 hc]
        decide

/-! ## Scanned tokens -/

variable {line col : Nat} {c : Char} {cs : List Char} {ts : List Token}

/-- Whether a text begins with a token, which is all of a name if it is a name. -/
def Leads (t : Token) (cs : List Char) : Prop :=
  ∃ rest, t.text.toList ++ rest = cs ∧
    (t.kind = .name → ∀ c ∈ rest.head?, continuesName c = false)

/-- What a step of the scanner can do: it ends the line, it passes over a blank, or it takes a
lexeme that stands where it is. -/
theorem scanLine_cons (h : scanLine line col (c :: cs) = .ok ts) :
    ts = [] ∨ scanLine line (col + 1) cs = .ok ts ∨
      ∃ t width more, IsLexeme t.kind t.text ∧ t.span = ⟨line, col⟩ ∧ t.Leads (c :: cs) ∧
        0 < width ∧ scanLine line (col + width) ((c :: cs).drop width) = .ok more ∧
        ts = t :: more := by
  have after {kind : TokenKind} {word rest : List Char} (hlexeme : IsLexeme kind (String.ofList word))
      (happend : word ++ rest = c :: cs) (hrest : rest.length < (c :: cs).length)
      (hends : kind = .name → ∀ d ∈ rest.head?, continuesName d = false)
      (h : (do
        let more ← scanLine line (col + word.length) rest
        return ⟨kind, String.ofList word, ⟨line, col⟩⟩ :: more) = Except.ok ts) :
      ∃ t width more, IsLexeme t.kind t.text ∧ t.span = ⟨line, col⟩ ∧ t.Leads (c :: cs) ∧
        0 < width ∧ scanLine line (col + width) ((c :: cs).drop width) = .ok more ∧
        ts = t :: more := by
    obtain ⟨more, hmore, ⟨⟩⟩ := exists_of_bind_eq_ok h
    have hwidth : 0 < word.length := by
      rw [← happend, List.length_append] at hrest
      omega
    have hword : (String.ofList word).toList ++ rest = c :: cs := by
      rw [String.toList_ofList, happend]
    refine ⟨⟨kind, String.ofList word, ⟨line, col⟩⟩, word.length, more, hlexeme, rfl,
      ⟨rest, hword, hends⟩, hwidth, ?_, rfl⟩
    rwa [← happend, List.drop_left]
  rw [scanLine] at h
  split at h
  · cases h
    exact .inl rfl
  split at h
  · exact .inr (.inl h)
  refine .inr (.inr ?_)
  split at h
  · next n rest hscan =>
    have hkind : TokenKind.number ≠ .name := by decide
    exact after (.number (Numeral.isProper_of_scan hscan)) (Numeral.chars_append_of_scan hscan)
      (Numeral.length_lt_of_scan hscan) (fun heq => absurd heq hkind) h
  split at h
  · next name rest hscan =>
    exact after (.name (isName_of_scanName hscan)) (append_of_scanName hscan)
      (length_lt_of_scanName hscan) (fun _ => continuesName_of_scanName hscan) h
  split at h
  · next kind hmark =>
    have hlexeme : IsLexeme kind (String.ofList [c]) := .mark hmark
    have hkind : kind ≠ .name := by
      rintro rfl
      exact markKind?_ne_name c hmark
    exact after hlexeme rfl (Nat.lt_succ_self _) (fun heq => absurd heq hkind) h
  · cases h

/-- The tokens of a line are lexemes that stand there at their columns, each before the next. -/
theorem forall_of_scanLine (h : scanLine line col cs = .ok ts) :
    (∀ t ∈ ts, IsLexeme t.kind t.text ∧
      ∃ k : Nat, t.span = ⟨line, col + k⟩ ∧ t.Leads (cs.drop k)) ∧
      ts.Pairwise fun t u => t.span.Before u.span := by
  -- every step leaves a shorter rest
  induction hn : cs.length using Nat.strong_induction_on generalizing cs col ts with
  | _ n ih =>
  cases cs with
  | nil =>
    rw [scanLine] at h
    cases h
    exact ⟨List.forall_mem_nil _, .nil⟩
  | cons c cs =>
  obtain rfl | hmore | ⟨first, width, more, hlexeme, hspan, hleads, hwidth, hmore, rfl⟩ :=
    scanLine_cons h
  · exact ⟨List.forall_mem_nil _, .nil⟩
  · obtain ⟨hall, hpairwise⟩ := ih _ (hn ▸ Nat.lt_succ_self _) hmore rfl
    refine ⟨fun t ht => ?_, hpairwise⟩
    obtain ⟨hlexeme, k, hspan, hleads⟩ := hall t ht
    exact ⟨hlexeme, k + 1, by rw [hspan, Span.mk.injEq]; omega, hleads⟩
  · have hshorter : ((c :: cs).drop width).length < n := by
      rw [List.length_drop, hn]
      exact Nat.sub_lt (hn ▸ Nat.succ_pos _) hwidth
    obtain ⟨hall, hpairwise⟩ := ih _ hshorter hmore rfl
    refine ⟨?_, List.pairwise_cons.2 ⟨?_, hpairwise⟩⟩
    · intro t ht
      rcases List.mem_cons.1 ht with rfl | ht
      · exact ⟨hlexeme, 0, by rw [hspan, Int.natCast_zero, Int.add_zero], hleads⟩
      · obtain ⟨hlexeme, k, hspan, hleads⟩ := hall t ht
        refine ⟨hlexeme, width + k, by rw [hspan, Span.mk.injEq]; omega, ?_⟩
        rwa [List.drop_drop] at hleads
    · intro t ht
      obtain ⟨_, k, hspan', _⟩ := hall t ht
      rw [hspan, hspan']
      refine .inr ⟨rfl, ?_⟩
      show (col : Int) < ↑(col + width) + ↑k
      omega

theorem forall_of_scanLines {lines : List (List Char)} (h : scanLines line lines = .ok ts) :
    (∀ t ∈ ts, IsLexeme t.kind t.text ∧ ∃ (row k : Nat) (cs : List Char),
      lines[row]? = some cs ∧ t.span = ⟨line + row, 1 + k⟩ ∧ t.Leads (cs.drop k)) ∧
      ts.Pairwise fun t u => t.span.Before u.span := by
  induction lines generalizing line ts with
  | nil =>
    cases h
    exact ⟨List.forall_mem_nil _, .nil⟩
  | cons cs lines ih =>
    obtain ⟨first, hfirst, h⟩ := exists_of_bind_eq_ok h
    obtain ⟨others, hothers, ⟨⟩⟩ := exists_of_bind_eq_ok h
    obtain ⟨hall, hpairwise⟩ := forall_of_scanLine hfirst
    obtain ⟨hall', hpairwise'⟩ := ih hothers
    refine ⟨?_, List.pairwise_append.2 ⟨hpairwise, hpairwise', ?_⟩⟩
    · intro t ht
      rcases List.mem_append.1 ht with ht | ht
      · obtain ⟨hlexeme, k, hspan, hleads⟩ := hall t ht
        exact ⟨hlexeme, 0, k, cs, rfl, by rw [hspan, Span.mk.injEq]; omega, hleads⟩
      · obtain ⟨hlexeme, row, k, ds, hrow, hspan, hleads⟩ := hall' t ht
        exact ⟨hlexeme, row + 1, k, ds, hrow, by rw [hspan, Span.mk.injEq]; omega, hleads⟩
    · intro t ht u hu
      obtain ⟨_, k, hspan, _⟩ := hall t ht
      obtain ⟨_, row, k', _, _, hspan', _⟩ := hall' u hu
      rw [hspan, hspan']
      refine .inl ?_
      show (line : Int) < ↑(line + 1) + ↑row
      omega

/-- Whether a token stands in some lines at its place. -/
def StandsIn (lines : List (List Char)) (t : Token) : Prop :=
  ∃ (row k : Nat) (cs : List Char), lines[row]? = some cs ∧ t.span = ⟨1 + row, 1 + k⟩ ∧
    t.Leads (cs.drop k)

variable {text : String}

/-- Every scanned token is a lexeme. -/
theorem isLexeme_of_scan (h : scan text = .ok ts) {t : Token} (ht : t ∈ ts) :
    IsLexeme t.kind t.text :=
  ((forall_of_scanLines h).1 t ht).1

/-- Every scanned token stands in the text at its place. -/
theorem standsIn_of_scan (h : scan text = .ok ts) {t : Token} (ht : t ∈ ts) :
    t.StandsIn (Text.lines text.toList) :=
  ((forall_of_scanLines h).1 t ht).2

/-- Scanned tokens stand in source order. -/
theorem pairwise_of_scan (h : scan text = .ok ts) :
    ts.Pairwise fun t u => t.span.Before u.span :=
  (forall_of_scanLines h).2

end Token

/-! ## Programs can be written -/

namespace Grammar

theorem Number.isFinite_value (n : Number) : n.value.isFinite = true := by
  unfold value
  split
  · obtain ⟨negative, m, q, hvalue⟩ := (Double.isFinite_iff _).1 n.magnitude.sort_token.2
    exact (Double.isFinite_iff _).2 ⟨_, _, _, Double.ofFloat_neg hvalue⟩
  · exact n.magnitude.sort_token.2

theorem Literal.exists_coordinates (v : Literal) :
    ∃ xs, v.value.coordinates? = some xs ∧ ∀ x ∈ xs, x.isFinite = true := by
  cases v <;> exact ⟨_, rfl, by simp [Number.isFinite_value]⟩

theorem Name.isFreshName {x : Name} (h : IsLexeme x.token.kind x.token.text) :
    IsFreshName x.token.text := by
  rw [x.sort_token.1] at h
  exact ⟨h.isName, x.sort_token.2⟩

/-- What a derivation over lexemes denotes can be written. -/
theorem Tree.isPrintable_expr {d : Tree} (h : ∀ t ∈ d.tokens, IsLexeme t.kind t.text) :
    d.expr.IsPrintable := by
  induction d with
  | literal v => exact v.exists_coordinates
  | intersect w l a c b r iha ihb =>
    exact ⟨iha fun t ht => h t (by simp [tokens, ht]), ihb fun t ht => h t (by simp [tokens, ht])⟩
  | shift w l dx c₁ dy c₂ a r ih =>
    exact ⟨dx.isFinite_value, dy.isFinite_value, ih fun t ht => h t (by simp [tokens, ht])⟩
  | bind w x q a i b iha ihb =>
    exact ⟨Name.isFreshName (h _ (by simp [tokens])), iha fun t ht => h t (by simp [tokens, ht]),
      ihb fun t ht => h t (by simp [tokens, ht])⟩
  | var x => exact Name.isFreshName (h _ (by simp [tokens]))

end Grammar

/-- A program has tokens, which have a derivation of its expression. -/
theorem Expr.exists_tree_of_parse {text : String} {e : Expr Float} (h : Expr.parse text = .ok e) :
    ∃ d : Tree, Token.scan text = .ok d.tokens ∧ d.expr = e := by
  cases hscan : Token.scan text with
  | error fault =>
    rw [Expr.parse, Expr.read, hscan] at h
    cases h
  | ok ts =>
    rw [Expr.parse_eq_ok_iff hscan, Parser.program_eq_ok_iff] at h
    obtain ⟨d, rfl, rfl⟩ := h
    exact ⟨d, rfl, rfl⟩

theorem Expr.isPrintable_of_parse {text : String} {e : Expr Float} (h : Expr.parse text = .ok e) :
    e.IsPrintable := by
  obtain ⟨d, hscan, rfl⟩ := Expr.exists_tree_of_parse h
  exact Tree.isPrintable_expr fun t ht => Token.isLexeme_of_scan hscan ht

end Planar
