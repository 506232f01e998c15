import Planar.Proofs.Source.Lexemes

/-!
# Tokens tile the source

The scanner takes the longest numeral, the longest name or a mark where one starts and passes over
blanks and comments, so that the tokens of a line and what is passed over make up the line. A text
is refused at the first place where the scan meets a character that starts nothing.

* `Token.Longest` — a word is the longest lexeme of its kind at the front of a text;
* `Numeral.exists_scan_append` — a numeral is scanned to its end;
* `Token.scanLine_step` — what a step of the scanner does, and when;
* `Token.Tiles` — tokens that stand side by side in some lines, with blanks and comments around;
* `Token.Stray` — a character that the scan of a line meets and that starts nothing;
* `scan_tiles` — scanned tokens tile the lines of a text, and a text that is not scanned has a first
  stray character, which the fault names.
-/

namespace Planar

open Text (isDigit)

/-! ## The longest numeral -/

namespace Numeral

/-- An exponent is scanned to its end, whatever comes after it. -/
theorem exists_scanExponent_append {e : Exponent} (he : e.IsProper) (rest : List Char) :
    ∃ e' rest', scanExponent (e.chars ++ rest) = some (e', rest') ∧
      e.chars.length ≤ e'.chars.length := by
  obtain ⟨mark, sign, digits⟩ := e
  obtain ⟨hmark, hsign, hdigits, hne⟩ := he
  dsimp only at hmark hsign hdigits hne
  have hscan : scanExponentDigits mark sign (digits ++ rest) =
      some (⟨mark, sign, digits ++ rest.takeWhile isDigit⟩, rest.dropWhile isDigit) := by
    rw [scanExponentDigits, List.takeWhile_append_of_pos hdigits,
      List.dropWhile_append_of_pos hdigits, if_neg (by simp [hne])]
  refine ⟨⟨mark, sign, digits ++ rest.takeWhile isDigit⟩, rest.dropWhile isDigit, ?_, ?_⟩
  · rw [← hscan]
    cases sign with
    | some s =>
      show scanExponent (mark :: s :: (digits ++ rest)) = _
      simp only [scanExponent]
      rw [if_pos hmark, if_pos (hsign s rfl)]
    | none =>
      obtain ⟨d, ds, rfl⟩ := List.exists_cons_of_ne_nil hne
      have hd : ¬(d = '+' ∨ d = '-') := by
        rintro (rfl | rfl)
        · exact absurd (hdigits '+' List.mem_cons_self) (by decide)
        · exact absurd (hdigits '-' List.mem_cons_self) (by decide)
      show scanExponent (mark :: d :: (ds ++ rest)) = _
      simp only [scanExponent]
      rw [if_pos hmark, if_neg hd]
      rfl
  · simp [Exponent.chars]

theorem length_le_finish_exponent {e : Exponent} (he : e.IsProper) (whole rest : List Char)
    (fraction : Option (List Char)) :
    (⟨whole, fraction, some e⟩ : Numeral).chars.length ≤
      (finish whole fraction (e.chars ++ rest)).1.chars.length := by
  obtain ⟨e', rest', hscan, hle⟩ := exists_scanExponent_append he rest
  rw [finish, hscan]
  simp only [chars, List.length_append, Option.elim_some]
  omega

/-- What is scanned of a text that begins with digits. -/
theorem exists_scan_digits {whole : List Char} (hwhole : ∀ c ∈ whole, isDigit c = true)
    (hne : whole ≠ []) (rest : List Char) :
    ∃ m rest', scan (whole ++ rest) = some (m, rest') ∧ whole.length ≤ m.chars.length := by
  have longer (fraction : Option (List Char)) (more : List Char) : whole.length ≤
      (finish (whole ++ rest.takeWhile isDigit) fraction more).1.chars.length := by
    have hle := length_le_finish (whole ++ rest.takeWhile isDigit) more fraction
    rw [List.length_append] at hle
    omega
  unfold scan
  dsimp only
  rw [List.takeWhile_append_of_pos hwhole, List.dropWhile_append_of_pos hwhole]
  split
  · rw [if_neg (by simp [hne])]
    exact ⟨_, _, rfl, longer _ _⟩
  · rw [if_neg (by simp [hne])]
    exact ⟨_, _, rfl, longer _ _⟩

/-- What is scanned of a text with a point after its first digits. -/
theorem scan_point {whole : List Char} (hwhole : ∀ c ∈ whole, isDigit c = true)
    {rest : List Char} (hne : whole ≠ [] ∨ rest.takeWhile isDigit ≠ []) :
    scan (whole ++ '.' :: rest) =
      some (finish whole (some (rest.takeWhile isDigit)) (rest.dropWhile isDigit)) := by
  have hpoint : ∀ c ∈ ('.' :: rest).head?, isDigit c = false := by
    intro c hc
    obtain rfl : '.' = c := Option.some.inj hc
    decide
  obtain ⟨htake, hdrop⟩ := span_append hwhole hpoint
  unfold scan
  simp only [htake, hdrop]
  rw [if_neg (by simpa [or_iff_not_imp_left] using hne)]

/-- A numeral is scanned to its end: what is scanned off a text is no shorter than any numeral at
the front of it. -/
theorem exists_scan_append {n : Numeral} (hn : n.IsProper) (rest : List Char) :
    ∃ m rest', scan (n.chars ++ rest) = some (m, rest') ∧ n.chars.length ≤ m.chars.length := by
  obtain ⟨whole, fraction, exponent⟩ := n
  obtain ⟨hwhole, hfraction, hne, hexponent⟩ := hn
  dsimp only at hwhole hfraction hne hexponent
  -- the mark of an exponent ends a row of digits
  have hmark (e : Exponent) (he : e.IsProper) :
      ∀ c ∈ (e.chars ++ rest).head?, isDigit c = false ∧ c ≠ '.' := by
    intro c hc
    obtain rfl : e.mark = c := Option.some.inj hc
    rcases he.mark with hmark | hmark <;> rw [hmark] <;> exact ⟨by decide, by decide⟩
  cases fraction with
  | some f =>
    rw [Option.getD_some] at hfraction hne
    have hchars : (⟨whole, some f, exponent⟩ : Numeral).chars ++ rest =
        whole ++ '.' :: (f ++ (exponent.elim [] Exponent.chars ++ rest)) := by
      simp [chars]
    have htake (more : List Char) : (f ++ more).takeWhile isDigit = f ++ more.takeWhile isDigit :=
      List.takeWhile_append_of_pos hfraction
    have hdrop (more : List Char) : (f ++ more).dropWhile isDigit = more.dropWhile isDigit :=
      List.dropWhile_append_of_pos hfraction
    rw [hchars, scan_point hwhole (hne.imp_right fun hf => by simp [htake, hf]), htake, hdrop]
    suffices hle : (⟨whole, some f, exponent⟩ : Numeral).chars.length ≤
        (finish whole _ _).1.chars.length from ⟨_, _, rfl, hle⟩
    cases exponent with
    | none =>
      have hle := length_le_finish whole (rest.dropWhile isDigit)
        (some (f ++ rest.takeWhile isDigit))
      have hlength : (⟨whole, some f, none⟩ : Numeral).chars.length =
          whole.length + (f.length + 1) := by
        simp [chars]
      rw [hlength]
      rw [Option.elim_some, List.length_cons, List.length_append] at hle
      exact Nat.le_trans (by omega) hle
    | some e =>
      have he := hexponent e rfl
      obtain ⟨hnone, hall⟩ : ([] ++ (e.chars ++ rest)).takeWhile isDigit = [] ∧
          ([] ++ (e.chars ++ rest)).dropWhile isDigit = e.chars ++ rest :=
        span_append (List.forall_mem_nil _) fun c hc => (hmark e he c hc).1
      rw [List.nil_append] at hnone hall
      rw [Option.elim_some, hnone, hall, List.append_nil]
      exact length_le_finish_exponent he whole rest (some f)
  | none =>
    have hwhole' : whole ≠ [] := by simpa using hne
    cases exponent with
    | none =>
      have hchars : (⟨whole, none, none⟩ : Numeral).chars = whole := by simp [chars]
      rw [hchars]
      exact exists_scan_digits hwhole hwhole' rest
    | some e =>
      have he := hexponent e rfl
      have hchars : (⟨whole, none, some e⟩ : Numeral).chars ++ rest =
          whole ++ (e.chars ++ rest) := by
        simp [chars]
      obtain ⟨htake, hdrop⟩ := span_append hwhole fun c hc => (hmark e he c hc).1
      have hscan : scan (whole ++ (e.chars ++ rest)) =
          some (finish whole none (e.chars ++ rest)) := by
        unfold scan
        simp only [htake, hdrop]
        split
        · next heq => exact absurd rfl (hmark e he '.' (by rw [heq]; rfl)).2
        · rw [if_neg (by simpa using hwhole')]
      rw [hchars, hscan]
      exact ⟨_, _, rfl, length_le_finish_exponent he whole rest none⟩

end Numeral

theorem Token.exists_scanName_append {word : String} (h : IsName word) (rest : List Char) :
    ∃ name rest', scanName (word.toList ++ rest) = some (name, rest') ∧
      word.length ≤ name.length := by
  obtain ⟨c, cs, hword, hstart, hcontinue⟩ := h
  rw [← String.length_toList, hword, List.cons_append, scanName, if_pos hstart,
    List.takeWhile_append_of_pos hcontinue]
  exact ⟨_, _, rfl, by simp⟩

/-! ## Lexemes at the front of a text -/

theorem IsLexeme.exists_numeral {word : String} (h : IsLexeme .number word) :
    ∃ n : Numeral, n.IsProper ∧ word = String.ofList n.chars := by
  generalize hkind : TokenKind.number = kind at h
  cases h with
  | number hn => exact ⟨_, hn, rfl⟩
  | name => cases hkind
  | mark hmark =>
    subst hkind
    unfold Token.markKind? at hmark
    split at hmark <;> cases hmark

/-- The kind of the lexemes that start with a character. -/
def Token.startKind? (c : Char) : Option TokenKind :=
  if isDigit c || c == '.' then some .number
  else if startsName c then some .name
  else markKind? c

/-- The first character of a lexeme tells its kind. -/
theorem IsLexeme.exists_cons {kind : TokenKind} {word : String} (h : IsLexeme kind word) :
    ∃ c cs, word.toList = c :: cs ∧ Token.startKind? c = some kind := by
  cases h with
  | number hn =>
    obtain ⟨c, cs, hchars, hc⟩ := hn.exists_cons
    refine ⟨c, cs, by rw [String.toList_ofList, hchars], ?_⟩
    rw [Token.startKind?, if_pos (by simpa using hc)]
  | name hname =>
    obtain ⟨c, cs, hword, hstart, _⟩ := hname
    refine ⟨c, cs, hword, ?_⟩
    have hdigit := Token.isDigit_of_startsName hstart
    have hpoint := (Token.ne_of_startsName hstart).2.2
    rw [Token.startKind?, if_neg (by simp [hdigit, hpoint]), if_pos hstart]
  | @mark c _ hmark =>
    refine ⟨c, [], String.toList_singleton c, ?_⟩
    unfold Token.markKind? at hmark
    split at hmark <;> cases hmark <;> decide

namespace Token

/-- A word is the longest lexeme of its kind at the front of a text. -/
structure Longest (kind : TokenKind) (word : String) (cs : List Char) : Prop where
  isLexeme : IsLexeme kind word
  leads : word.toList <+: cs
  length_le : ∀ other, IsLexeme kind other → other.toList <+: cs → other.length ≤ word.length

theorem longest_number {cs rest : List Char} {n : Numeral} (h : Numeral.scan cs = some (n, rest)) :
    Longest .number (String.ofList n.chars) cs := by
  refine ⟨.number (Numeral.isProper_of_scan h), ⟨rest, ?_⟩, ?_⟩
  · rw [String.toList_ofList]
    exact Numeral.chars_append_of_scan h
  · rintro other hother ⟨more, rfl⟩
    obtain ⟨m, hm, rfl⟩ := hother.exists_numeral
    obtain ⟨n', rest', hscan, hle⟩ := Numeral.exists_scan_append hm more
    rw [String.toList_ofList, hscan] at h
    cases h
    rwa [String.length_ofList, String.length_ofList]

theorem longest_name {cs name rest : List Char} (h : scanName cs = some (name, rest)) :
    Longest .name (String.ofList name) cs := by
  refine ⟨.name (isName_of_scanName h), ⟨rest, ?_⟩, ?_⟩
  · rw [String.toList_ofList]
    exact append_of_scanName h
  · rintro other hother ⟨more, rfl⟩
    obtain ⟨name', rest', hscan, hle⟩ := exists_scanName_append hother.isName more
    rw [hscan] at h
    cases h
    rwa [String.length_ofList]

theorem longest_mark {c : Char} {kind : TokenKind} (h : markKind? c = some kind)
    (cs : List Char) : Longest kind (String.singleton c) (c :: cs) := by
  refine ⟨.mark h, by simp, ?_⟩
  intro other hother _
  have hmark : kind ≠ .number ∧ kind ≠ .name := by
    unfold markKind? at h
    split at h <;> cases h <;> decide
  cases hother with
  | number => exact absurd rfl hmark.1
  | name => exact absurd rfl hmark.2
  | mark => simp

/-- At most one lexeme is the longest of its kind at the front of a text. -/
theorem Longest.unique {kind kind' : TokenKind} {word word' : String} {cs : List Char}
    (h : Longest kind word cs) (h' : Longest kind' word' cs) : kind = kind' ∧ word = word' := by
  obtain ⟨c, more, hword, hc⟩ := h.isLexeme.exists_cons
  obtain ⟨c', more', hword', hc'⟩ := h'.isLexeme.exists_cons
  have hhead : c = c' := by
    obtain ⟨rest, hrest⟩ := h.leads
    obtain ⟨rest', hrest'⟩ := h'.leads
    rw [← hrest', hword, hword'] at hrest
    exact (List.cons.inj hrest).1
  subst hhead
  obtain rfl : kind = kind' := Option.some.inj (hc.symm.trans hc')
  have hlength : word.toList.length = word'.toList.length := by
    rw [String.length_toList, String.length_toList]
    exact Nat.le_antisymm (h'.length_le _ h.isLexeme h.leads) (h.length_le _ h'.isLexeme h'.leads)
  have hbegins := List.prefix_of_prefix_length_le h.leads h'.leads hlength.le
  exact ⟨rfl, String.toList_inj.1 (hbegins.eq_of_length hlength)⟩

/-! ## Steps of the scanner -/

variable {line col k : Nat} {c : Char} {cs : List Char} {ts : List Token}

/-- A character starts neither a token nor a comment and is no blank. -/
structure StartsNothing (c : Char) (cs : List Char) : Prop where
  sign : c ≠ '#'
  gap : isGap c = false
  lexeme : ∀ kind word, IsLexeme kind word → ¬word.toList <+: c :: cs

/-- What a step of the scanner does: it ends at a comment, it passes over a blank, it takes the
longest lexeme that starts where it stands, or it finds that nothing starts there. -/
theorem scanLine_step (line col : Nat) (c : Char) (cs : List Char) :
    (c = '#' ∧ scanLine line col (c :: cs) = .ok []) ∨
    (isGap c = true ∧ scanLine line col (c :: cs) = scanLine line (col + 1) cs) ∨
    (∃ kind word, Longest kind word (c :: cs) ∧ scanLine line col (c :: cs) =
      (⟨kind, word, ⟨line, col⟩⟩ :: ·) <$>
        scanLine line (col + word.length) ((c :: cs).drop word.length)) ∨
    (StartsNothing c cs ∧
      scanLine line col (c :: cs) = .error (.unexpectedChar c ⟨line, col⟩)) := by
  by_cases hsign : c = '#'
  · exact .inl ⟨hsign, by rw [scanLine, if_pos hsign]⟩
  by_cases hgap : isGap c = true
  · exact .inr (.inl ⟨hgap, scanLine_gap hgap⟩)
  rw [Bool.not_eq_true] at hgap
  refine .inr (.inr ?_)
  cases hnumber : Numeral.scan (c :: cs) with
  | some p =>
    obtain ⟨n, rest⟩ := p
    refine .inl ⟨_, _, longest_number hnumber, ?_⟩
    rw [scanLine_number hsign hgap hnumber, String.length_ofList,
      ← Numeral.chars_append_of_scan hnumber, List.drop_left]
  | none =>
  cases hname : scanName (c :: cs) with
  | some p =>
    obtain ⟨name, rest⟩ := p
    refine .inl ⟨_, _, longest_name hname, ?_⟩
    rw [scanLine_name hsign hgap hnumber hname, String.length_ofList, ← append_of_scanName hname,
      List.drop_left]
  | none =>
  cases hmark : markKind? c with
  | some kind =>
    refine .inl ⟨_, _, longest_mark hmark cs, ?_⟩
    rw [scanLine_mark hmark, String.length_singleton, List.drop_one, List.tail_cons]
  | none =>
    refine .inr ⟨⟨hsign, hgap, ?_⟩, ?_⟩
    · rintro kind word hlexeme ⟨more, hmore⟩
      cases hlexeme with
      | number hn =>
        obtain ⟨m, rest', hscan, _⟩ := Numeral.exists_scan_append hn more
        rw [String.toList_ofList] at hmore
        rw [hmore, hnumber] at hscan
        cases hscan
      | name hword =>
        obtain ⟨name, rest', hscan, _⟩ := exists_scanName_append hword more
        rw [hmore, hname] at hscan
        cases hscan
      | mark hc =>
        rw [String.toList_singleton, List.singleton_append, List.cons.injEq] at hmore
        rw [hmore.1, hmark] at hc
        cases hc
    · rw [scanLine, if_neg hsign, if_neg (by simp [hgap])]
      split
      · next heq => exact absurd (hnumber.symm.trans heq) (by simp)
      · split
        · next heq => exact absurd (hname.symm.trans heq) (by simp)
        · rw [hmark]

theorem Longest.scanLine_eq {kind : TokenKind} {word : String} (h : Longest kind word cs) :
    scanLine line col cs = (⟨kind, word, ⟨line, col⟩⟩ :: ·) <$>
      scanLine line (col + word.length) (cs.drop word.length) := by
  obtain ⟨c, more, hword, hc⟩ := h.isLexeme.exists_cons
  obtain ⟨rest, rfl⟩ := h.leads
  have hcons : word.toList ++ rest = c :: (more ++ rest) := by rw [hword, List.cons_append]
  rw [hcons] at h ⊢
  obtain ⟨rfl, _⟩ | ⟨hgap, _⟩ | ⟨kind', word', h', hscan⟩ | ⟨hnothing, _⟩ :=
    scanLine_step line col c (more ++ rest)
  · cases hc
  · simp only [isGap, Bool.or_eq_true, beq_iff_eq] at hgap
    rcases hgap with (rfl | rfl) | rfl <;> cases hc
  · obtain ⟨rfl, rfl⟩ := h.unique h'
    exact hscan
  · exact absurd h.leads (hnothing.lexeme _ _ h.isLexeme)

/-! ## Where the scan of a line comes to -/

/-- The scan of a line comes to a position: it begins at the first one, passes over blanks and takes
the longest lexeme where one starts. It goes no further than to the sign of a comment. -/
inductive Reaches (cs : List Char) : Nat → Prop where
  | start : Reaches cs 0
  | gap {k : Nat} {c : Char} (h : Reaches cs k) (hc : cs[k]? = some c) (hgap : isGap c = true) :
      Reaches cs (k + 1)
  | lexeme {k : Nat} {kind : TokenKind} {word : String} (h : Reaches cs k)
      (hword : Longest kind word (cs.drop k)) : Reaches cs (k + word.length)

/-- The scan of a line meets a character that starts nothing. -/
structure Stray (cs : List Char) (k : Nat) (c : Char) : Prop where
  reaches : Reaches cs k
  at_place : cs[k]? = some c
  startsNothing : StartsNothing c (cs.drop (k + 1))

theorem drop_eq_cons (h : cs[k]? = some c) : cs.drop k = c :: cs.drop (k + 1) := by
  obtain ⟨hk, rfl⟩ := List.getElem?_eq_some_iff.1 h
  exact List.drop_eq_getElem_cons hk

/-- Where the scan of a line has come to, it goes on with the rest of the line. -/
theorem Reaches.exists_scanLine (h : Reaches cs k) (line : Nat) :
    ∃ ts, scanLine line 1 cs = (ts ++ ·) <$> scanLine line (1 + k) (cs.drop k) := by
  induction h with
  | start => exact ⟨[], by simp⟩
  | gap _ hc hgap ih =>
    obtain ⟨ts, hts⟩ := ih
    rw [drop_eq_cons hc, scanLine_gap hgap] at hts
    exact ⟨ts, hts⟩
  | @lexeme k kind word _ hword ih =>
    obtain ⟨ts, hts⟩ := ih
    rw [hword.scanLine_eq, List.drop_drop, Functor.map_map] at hts
    refine ⟨ts ++ [⟨kind, word, ⟨line, (1 + k : Nat)⟩⟩], ?_⟩
    simp only [hts, List.append_assoc, List.singleton_append, Nat.add_assoc]

theorem Stray.scanLine_eq (h : Stray cs k c) (line : Nat) :
    scanLine line 1 cs = .error (.unexpectedChar c ⟨line, 1 + k⟩) := by
  obtain ⟨ts, hts⟩ := h.reaches.exists_scanLine line
  obtain ⟨hsign, hgap, hlexeme⟩ := h.startsNothing
  rw [drop_eq_cons h.at_place] at hts
  obtain ⟨hc, _⟩ | ⟨hc, _⟩ | ⟨kind, word, hword, _⟩ | ⟨_, hscan⟩ :=
    scanLine_step line (1 + k) c (cs.drop (k + 1))
  · exact absurd hc hsign
  · exact absurd hc (by simp [hgap])
  · exact absurd hword.leads (hlexeme _ _ hword.isLexeme)
  · rw [hts, hscan]
    rfl

/-! ## Tiled lines -/

/-- Whether a token takes up a place. -/
def Covers (t : Token) (place : Span) : Prop :=
  t.span.line = place.line ∧ t.span.col ≤ place.col ∧ place.col < t.span.col + t.text.length

/-- Whether a token ends before another one begins. -/
def EndsBefore (t u : Token) : Prop :=
  t.span.line < u.span.line ∨
    t.span.line = u.span.line ∧ t.span.col + t.text.length ≤ u.span.col

/-- The tokens of a line from position `k` on: each is the longest lexeme of its kind where it
stands, they do not overlap, and up to the end of the line or the sign of a comment there are only
blanks beside them. -/
structure TilesFrom (line k : Nat) (cs : List Char) (ts : List Token) : Prop where
  stands : ∀ t ∈ ts, ∃ j : Nat, k ≤ j ∧ t.span = ⟨line, 1 + j⟩ ∧ Longest t.kind t.text (cs.drop j)
  apart : ts.Pairwise EndsBefore
  rest : ∃ stop, k ≤ stop ∧ stop ≤ cs.length ∧ (∀ c ∈ cs[stop]?, c = '#') ∧
    (∀ t ∈ ts, t.span.col + t.text.length ≤ 1 + stop) ∧
    ∀ (j : Nat) (c : Char), k ≤ j → j < stop → cs[j]? = some c →
      isGap c = true ∨ ∃ t ∈ ts, t.Covers ⟨line, 1 + j⟩

theorem TilesFrom.nil (hk : k ≤ cs.length) (hend : ∀ c ∈ cs[k]?, c = '#') :
    TilesFrom line k cs [] :=
  ⟨List.forall_mem_nil _, .nil, k, le_rfl, hk, hend, List.forall_mem_nil _,
    fun j _ hj hlt => absurd hj (by omega)⟩

theorem TilesFrom.gap (hc : cs[k]? = some c) (hgap : isGap c = true)
    (h : TilesFrom line (k + 1) cs ts) : TilesFrom line k cs ts := by
  obtain ⟨stop, hle, hstop, hsign, hends, hrest⟩ := h.rest
  refine ⟨?_, h.apart, stop, by omega, hstop, hsign, hends, ?_⟩
  · intro t ht
    obtain ⟨j, hj, hstands⟩ := h.stands t ht
    exact ⟨j, by omega, hstands⟩
  · intro j d hj hlt hd
    obtain rfl | hj := Nat.eq_or_lt_of_le hj
    · rw [hc] at hd
      cases hd
      exact .inl hgap
    · exact hrest j d hj hlt hd

theorem TilesFrom.lexeme {kind : TokenKind} {word : String} (hword : Longest kind word (cs.drop k))
    (h : TilesFrom line (k + word.length) cs ts) :
    TilesFrom line k cs (⟨kind, word, ⟨line, 1 + k⟩⟩ :: ts) := by
  obtain ⟨stop, hle, hstop, hsign, hends, hrest⟩ := h.rest
  refine ⟨List.forall_mem_cons.2 ⟨⟨k, le_rfl, rfl, hword⟩, ?_⟩, List.pairwise_cons.2 ⟨?_, h.apart⟩,
    stop, by omega, hstop, hsign, List.forall_mem_cons.2 ⟨?_, hends⟩, ?_⟩
  · intro t ht
    obtain ⟨j, hj, hstands⟩ := h.stands t ht
    exact ⟨j, by omega, hstands⟩
  · intro t ht
    obtain ⟨j, hj, hspan, _⟩ := h.stands t ht
    rw [EndsBefore, hspan]
    refine .inr ⟨rfl, ?_⟩
    show (1 + k : Int) + word.length ≤ 1 + j
    omega
  · show (1 + k : Int) + word.length ≤ 1 + stop
    omega
  · intro j d hj hlt hd
    by_cases hin : j < k + word.length
    · refine .inr ⟨_, List.mem_cons_self, rfl, ?_, ?_⟩
      · show (1 + k : Int) ≤ 1 + j
        omega
      · show (1 + j : Int) < 1 + k + word.length
        omega
    · obtain hgap | ⟨t, ht, hcovers⟩ := hrest j d (by omega) hlt hd
      · exact .inl hgap
      · exact .inr ⟨t, List.mem_cons_of_mem _ ht, hcovers⟩

/-- From where the scan of a line has come to, it yields tokens that tile the rest of the line, or
it meets a character that starts nothing. -/
theorem scanLine_outcome (h : Reaches cs k) (hk : k ≤ cs.length) (line : Nat) :
    (∃ ts, scanLine line (1 + k) (cs.drop k) = .ok ts ∧ TilesFrom line k cs ts) ∨
    ∃ j c, Stray cs j c ∧
      scanLine line (1 + k) (cs.drop k) = .error (.unexpectedChar c ⟨line, 1 + j⟩) := by
  -- every step comes to a later position of the line
  induction hn : cs.length - k using Nat.strong_induction_on generalizing k with
  | _ n ih =>
  cases hc : cs[k]? with
  | none =>
    have hnil : cs.drop k = [] := List.drop_eq_nil_of_le (List.getElem?_eq_none_iff.1 hc)
    rw [hnil, scanLine]
    exact .inl ⟨[], rfl, .nil hk (by simp [hc])⟩
  | some c =>
  have hlt : k < cs.length := (List.getElem?_eq_some_iff.1 hc).1
  rw [drop_eq_cons hc]
  obtain ⟨rfl, hscan⟩ | ⟨hgap, hscan⟩ | ⟨kind, word, hword, hscan⟩ | ⟨hnothing, hscan⟩ :=
    scanLine_step line (1 + k) c (cs.drop (k + 1))
  · exact .inl ⟨[], hscan, .nil hk (by simp [hc])⟩
  · rw [hscan]
    obtain ⟨ts, hts, htiles⟩ | hstray := ih _ (by omega) (h.gap hc hgap) hlt rfl
    · exact .inl ⟨ts, hts, htiles.gap hc hgap⟩
    · exact .inr hstray
  · rw [← drop_eq_cons hc] at hword hscan
    have hpos : 0 < word.length := by
      obtain ⟨d, ds, hd, _⟩ := hword.isLexeme.exists_cons
      rw [← String.length_toList, hd]
      exact Nat.succ_pos _
    have hle : word.length ≤ cs.length - k := by
      rw [← String.length_toList, ← List.length_drop]
      exact hword.leads.length_le
    rw [← drop_eq_cons hc, hscan, List.drop_drop, Nat.add_assoc]
    obtain ⟨ts, hts, htiles⟩ | ⟨j, d, hstray, hfault⟩ :=
      ih _ (by omega) (h.lexeme hword) (by omega) rfl
    · exact .inl ⟨_, by rw [hts]; rfl, htiles.lexeme hword⟩
    · exact .inr ⟨j, d, hstray, by rw [hfault]; rfl⟩
  · exact .inr ⟨k, c, ⟨h, hc, hnothing⟩, hscan⟩

/-! ## Tiled texts -/

/-- The tokens of some lines, of which the first has number `first`. -/
structure Tiles (first : Nat) (lines : List (List Char)) (ts : List Token) : Prop where
  /-- The text of a token is the slice of its line at its column, and no lexeme of its kind that
  stands there is longer. -/
  stands : ∀ t ∈ ts, ∃ (row k : Nat) (cs : List Char), lines[row]? = some cs ∧
    t.span = ⟨first + row, 1 + k⟩ ∧ t.text.toList = (cs.drop k).take t.text.length ∧
    Longest t.kind t.text (cs.drop k)
  /-- The tokens are in source order and do not overlap. -/
  ordered : ts.Pairwise fun t u => t.span.Before u.span ∧ t.EndsBefore u
  /-- Each line stops at its end or at the sign of a comment. No token goes beyond that, and before
  it there are only tokens and blanks. -/
  rest : ∀ (row : Nat) (cs : List Char), lines[row]? = some cs → ∃ stop ≤ cs.length,
    (∀ c ∈ cs[stop]?, c = '#') ∧
    (∀ t ∈ ts, t.span.line = first + row → t.span.col + t.text.length ≤ 1 + stop) ∧
    ∀ (k : Nat) (c : Char), k < stop → cs[k]? = some c →
      isGap c = true ∨ ∃ t ∈ ts, t.Covers ⟨first + row, 1 + k⟩

theorem EndsBefore.before {t u : Token} (h : t.EndsBefore u) (ht : IsLexeme t.kind t.text) :
    t.span.Before u.span := by
  obtain ⟨c, more, hword, _⟩ := ht.exists_cons
  have hpos : 0 < t.text.length := by
    rw [← String.length_toList, hword]
    exact Nat.succ_pos _
  rcases h with hline | ⟨hline, hcol⟩
  · exact .inl hline
  · exact .inr ⟨hline, by omega⟩

theorem Tiles.nil (first : Nat) : Tiles first [] [] := by
  refine ⟨List.forall_mem_nil _, .nil, ?_⟩
  intro row cs hrow
  cases hrow

theorem Tiles.cons {first : Nat} {lines : List (List Char)} {us : List Token}
    (h : TilesFrom first 0 cs ts) (hmore : Tiles (first + 1) lines us) :
    Tiles first (cs :: lines) (ts ++ us) := by
  have hline : ∀ t ∈ ts, t.span.line = first := by
    intro t ht
    obtain ⟨j, _, hspan, _⟩ := h.stands t ht
    rw [hspan]
  have hlater : ∀ u ∈ us, (first : Int) < u.span.line := by
    intro u hu
    obtain ⟨row, k, ds, _, hspan, _⟩ := hmore.stands u hu
    rw [hspan]
    show (first : Int) < (first + 1 : Nat) + row
    omega
  refine ⟨?_, List.pairwise_append.2 ⟨?_, hmore.ordered, ?_⟩, ?_⟩
  · intro t ht
    rcases List.mem_append.1 ht with ht | ht
    · obtain ⟨j, _, hspan, hlongest⟩ := h.stands t ht
      refine ⟨0, j, cs, rfl, by simp [hspan], ?_, hlongest⟩
      rw [← String.length_toList]
      exact List.prefix_iff_eq_take.1 hlongest.leads
    · obtain ⟨row, k, ds, hrow, hspan, hstands⟩ := hmore.stands t ht
      exact ⟨row + 1, k, ds, hrow, by rw [hspan, Span.mk.injEq]; omega, hstands⟩
  · refine h.apart.imp_of_mem fun {t u} ht _ hends => ?_
    obtain ⟨j, _, _, hlongest⟩ := h.stands t ht
    exact ⟨hends.before hlongest.isLexeme, hends⟩
  · intro t ht u hu
    have hlt := hlater u hu
    rw [← hline t ht] at hlt
    exact ⟨.inl hlt, .inl hlt⟩
  · intro row ds hrow
    cases row with
    | zero =>
      cases hrow
      obtain ⟨stop, _, hstop, hsign, hends, hrest⟩ := h.rest
      refine ⟨stop, hstop, hsign, ?_, ?_⟩
      · intro t ht heq
        rcases List.mem_append.1 ht with ht | ht
        · exact hends t ht
        · have := hlater t ht
          omega
      · intro k c hk hc
        obtain hgap | ⟨t, ht, hcovers⟩ := hrest k c (Nat.zero_le k) hk hc
        · exact .inl hgap
        · exact .inr ⟨t, List.mem_append_left us ht, by simpa using hcovers⟩
    | succ row =>
      obtain ⟨stop, hstop, hsign, hends, hrest⟩ := hmore.rest row ds hrow
      have hnumber : ((first + 1 : Nat) : Int) + row = first + (row + 1 : Nat) := by omega
      rw [hnumber] at hends hrest
      refine ⟨stop, hstop, hsign, ?_, ?_⟩
      · intro t ht heq
        rcases List.mem_append.1 ht with ht | ht
        · rw [hline t ht] at heq
          omega
        · exact hends t ht heq
      · intro k c hk hc
        obtain hgap | ⟨t, ht, hcovers⟩ := hrest k c hk hc
        · exact .inl hgap
        · exact .inr ⟨t, List.mem_append_right ts ht, hcovers⟩

/-- The stray character of a line, where no earlier line has one. -/
structure FirstStray (lines : List (List Char)) (row k : Nat) (c : Char) : Prop where
  stray : ∃ cs, lines[row]? = some cs ∧ Stray cs k c
  earlier : ∀ cs ∈ lines.take row, ∀ j d, ¬Stray cs j d

theorem FirstStray.unique {lines : List (List Char)} {row row' k k' : Nat} {c c' : Char}
    (h : FirstStray lines row k c) (h' : FirstStray lines row' k' c') :
    row = row' ∧ k = k' ∧ c = c' := by
  have not_lt {row row' k k' : Nat} {c c' : Char} (h : FirstStray lines row k c)
      (h' : FirstStray lines row' k' c') : ¬row < row' := by
    intro hlt
    obtain ⟨cs, hrow, hstray⟩ := h.stray
    refine h'.earlier cs ?_ k c hstray
    exact List.mem_of_getElem? (i := row) (by rw [List.getElem?_take_of_lt hlt, hrow])
  obtain rfl : row = row' := by
    have := not_lt h h'
    have := not_lt h' h
    omega
  obtain ⟨cs, hrow, hstray⟩ := h.stray
  obtain ⟨cs', hrow', hstray'⟩ := h'.stray
  rw [hrow] at hrow'
  cases hrow'
  have hfault := (hstray.scanLine_eq 1).symm.trans (hstray'.scanLine_eq 1)
  injection hfault with hfault
  injection hfault with hc hspan
  injection hspan with _ hcol
  exact ⟨rfl, by omega, hc⟩

theorem scanLine_outcome_line (cs : List Char) (line : Nat) :
    (∃ ts, scanLine line 1 cs = .ok ts ∧ TilesFrom line 0 cs ts ∧ ∀ j d, ¬Stray cs j d) ∨
    ∃ k c, Stray cs k c ∧ scanLine line 1 cs = .error (.unexpectedChar c ⟨line, 1 + k⟩) := by
  obtain ⟨ts, hts, htiles⟩ | ⟨k, c, hstray, hfault⟩ :=
    scanLine_outcome (.start : Reaches cs 0) (Nat.zero_le _) line
  · refine .inl ⟨ts, hts, htiles, ?_⟩
    intro j d hstray
    have hfault := hstray.scanLine_eq line
    rw [show scanLine line 1 cs = .ok ts from hts] at hfault
    cases hfault
  · exact .inr ⟨k, c, hstray, hstray.scanLine_eq line⟩

/-- Lines without a stray character are tiled by their tokens, and others are refused at the first
one. -/
theorem scanLines_outcome (first : Nat) (lines : List (List Char)) :
    (∃ ts, scanLines first lines = .ok ts ∧ Tiles first lines ts ∧
      ∀ cs ∈ lines, ∀ j d, ¬Stray cs j d) ∨
    ∃ row k c, FirstStray lines row k c ∧
      scanLines first lines = .error (.unexpectedChar c ⟨first + row, 1 + k⟩) := by
  induction lines generalizing first with
  | nil => exact .inl ⟨[], rfl, .nil first, List.forall_mem_nil _⟩
  | cons cs lines ih =>
    rw [scanLines]
    obtain ⟨ts, hts, htiles, hnone⟩ | ⟨k, c, hstray, hfault⟩ := scanLine_outcome_line cs first
    · rw [hts]
      obtain ⟨us, hus, hmore, hnone'⟩ | ⟨row, k, c, ⟨⟨ds, hrow, hstray⟩, hearlier⟩, hfault⟩ :=
        ih (first + 1)
      · rw [hus]
        exact .inl ⟨ts ++ us, rfl, Tiles.cons htiles hmore, List.forall_mem_cons.2 ⟨hnone, hnone'⟩⟩
      · rw [hfault]
        refine .inr ⟨row + 1, k, c, ⟨⟨ds, hrow, hstray⟩, ?_⟩, ?_⟩
        · rw [List.take_succ_cons]
          exact List.forall_mem_cons.2 ⟨hnone, hearlier⟩
        · show Except.error _ = Except.error _
          congr 3
          omega
    · rw [hfault]
      exact .inr ⟨0, k, c, ⟨⟨cs, rfl, hstray⟩, List.forall_mem_nil _⟩, by simp; rfl⟩

end Token

/-- Scanned tokens tile the lines of a text. A text is refused exactly if the scan meets a character
that starts nothing, and the fault names the first one. -/
theorem scan_tiles (text : String) :
    (∀ ts, Token.scan text = .ok ts → Token.Tiles 1 (Text.lines text.toList) ts) ∧
    ∀ fault, Token.scan text = .error fault ↔
      ∃ row k c, Token.FirstStray (Text.lines text.toList) row k c ∧
        fault = .unexpectedChar c ⟨1 + row, 1 + k⟩ := by
  obtain ⟨ts, hts, htiles, hnone⟩ | ⟨row, k, c, hfirst, hfault⟩ :=
    Token.scanLines_outcome 1 (Text.lines text.toList)
  · rw [Token.scan, hts]
    refine ⟨?_, fun fault => iff_of_false ?_ ?_⟩
    · rintro _ ⟨⟩
      exact htiles
    · intro h
      cases h
    · rintro ⟨row, k, c, ⟨⟨cs, hrow, hstray⟩, _⟩, _⟩
      exact hnone cs (List.mem_of_getElem? hrow) k c hstray
  · rw [Token.scan, hfault]
    refine ⟨?_, fun fault => ⟨?_, ?_⟩⟩
    · intro ts h
      cases h
    · rintro ⟨⟩
      exact ⟨row, k, c, hfirst, rfl⟩
    · rintro ⟨row', k', c', hfirst', rfl⟩
      obtain ⟨rfl, rfl, rfl⟩ := hfirst.unique hfirst'
      rfl

/-- Numerals and names that touch, a comment that holds marks, and a digit of another script. -/
theorem scan_tiles_touching :
    ∃ ts, Token.scan "1.2.3e\t.5E+7#(=\r\n x_1-٣)" = .ok ts ∧
      ts.map Token.text = ["1.2", ".3", "e", ".5E+7", "x_1", "-", "٣", ")"] ∧
      Token.Tiles 1 (Text.lines "1.2.3e\t.5E+7#(=\r\n x_1-٣)".toList) ts := by
  have h : Token.scan "1.2.3e\t.5E+7#(=\r\n x_1-٣)" = .ok
      [⟨.number, "1.2", ⟨1, 1⟩⟩, ⟨.number, ".3", ⟨1, 4⟩⟩, ⟨.name, "e", ⟨1, 6⟩⟩,
        ⟨.number, ".5E+7", ⟨1, 8⟩⟩, ⟨.name, "x_1", ⟨2, 2⟩⟩, ⟨.dash, "-", ⟨2, 5⟩⟩,
        ⟨.number, "٣", ⟨2, 6⟩⟩, ⟨.rightParen, ")", ⟨2, 7⟩⟩] := by
    decide +kernel
  exact ⟨_, h, rfl, (scan_tiles _).1 _ h⟩

end Planar
