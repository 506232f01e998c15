import Mathlib.Tactic
import Planar.Proofs.Number.Numerals
import Planar.Token

/-!
# Scanning written tokens

What one step of the scanner does, and what it makes of a text that is put together from tokens:

* `scanLine_gap`, `scanLine_number`, `scanLine_name`, `scanLine_mark` — the four steps;
* `Scans` — a text is the given tokens, whatever comes after it that cannot go on with the last;
* `Scans.nil`, `Scans.gap`, `Scans.mark`, `Scans.name`, `Scans.number`, `Scans.append` — how such
  texts are built;
* `Text.lines_append`, `Text.lines_break` — the lines of a text with something in front;
* `scan_ofList` — a text of one line is scanned as that line.
-/

namespace Planar

open Text (isDigit)

/-- A text that starts with neither a digit nor a point starts with no numeral. -/
theorem Numeral.scan_eq_none {c : Char} (hdigit : isDigit c = false) (hpoint : c ≠ '.')
    (cs : List Char) : scan (c :: cs) = none := by
  have htake : (c :: cs).takeWhile isDigit = [] := by simp [hdigit]
  have hdrop : (c :: cs).dropWhile isDigit = c :: cs := by simp [hdigit]
  unfold scan
  simp only [htake, hdrop]
  split
  · next heq =>
    injection heq with heq
    exact absurd heq hpoint
  · rfl

/-- A proper numeral starts with a digit or a point. -/
theorem Numeral.IsProper.exists_cons {n : Numeral} (h : n.IsProper) :
    ∃ c cs, n.chars = c :: cs ∧ (isDigit c = true ∨ c = '.') := by
  obtain ⟨whole, fraction, exponent⟩ := n
  cases whole with
  | cons c cs => exact ⟨c, _, rfl, .inl (h.whole c List.mem_cons_self)⟩
  | nil =>
    cases fraction with
    | some f => exact ⟨'.', _, rfl, .inr rfl⟩
    | none => rcases h.nonempty with hne | hne <;> exact absurd rfl hne

namespace Token

/-! ## Characters of names -/

/-- The code points of the characters that start a name. -/
theorem toNat_of_startsName {c : Char} (h : startsName c = true) :
    (65 ≤ c.toNat ∧ c.toNat ≤ 90) ∨ (97 ≤ c.toNat ∧ c.toNat ≤ 122) ∨ c.toNat = 95 := by
  rw [startsName, Bool.or_eq_true, beq_iff_eq] at h
  rcases h with halpha | rfl
  · have hletter : (decide ('A'.val ≤ c.val ∧ c.val ≤ 'Z'.val) ||
        (decide ('a'.val ≤ c.val) && decide (c.val ≤ 'z'.val))) = true := halpha
    simp only [Bool.or_eq_true, Bool.and_eq_true, decide_eq_true_eq, UInt32.le_iff_toNat_le]
      at hletter
    rcases hletter with ⟨hlow, hhigh⟩ | ⟨hlow, hhigh⟩
    · exact .inl ⟨hlow, hhigh⟩
    · exact .inr (.inl ⟨hlow, hhigh⟩)
  · exact .inr (.inr rfl)

/-- The code points of the characters that go on with a name. -/
theorem toNat_of_continuesName {c : Char} (h : continuesName c = true) :
    48 ≤ c.toNat ∧ c.toNat ≤ 122 := by
  simp only [continuesName, Char.isAlphanum, Bool.or_eq_true] at h
  rcases h with (halpha | hdigit) | hlow
  · have := toNat_of_startsName (c := c) (by simp [startsName, halpha])
    omega
  · have : 48 ≤ c.toNat ∧ c.toNat ≤ 57 := Char.isDigit_iff_toNat.1 hdigit
    omega
  · have := toNat_of_startsName (c := c) (by simp [startsName, hlow])
    omega

theorem continuesName_of_startsName {c : Char} (h : startsName c = true) :
    continuesName c = true := by
  simp only [startsName, continuesName, Char.isAlphanum, Bool.or_eq_true] at h ⊢
  tauto

/-- No digit starts a name. -/
theorem isDigit_of_startsName {c : Char} (h : startsName c = true) : isDigit c = false := by
  have hrange := toNat_of_startsName h
  rw [Text.isDigit_of_lt (by omega)]
  simp only [Bool.and_eq_false_iff, decide_eq_false_iff_not]
  omega

/-- What starts a name starts nothing else. -/
theorem ne_of_startsName {c : Char} (h : startsName c = true) :
    c ≠ '#' ∧ isGap c = false ∧ c ≠ '.' := by
  have hne : ∀ d : Char, startsName d = false → c ≠ d := by
    rintro d hd rfl
    exact absurd h (by simp [hd])
  refine ⟨hne '#' (by decide), ?_, hne '.' (by decide)⟩
  simp [isGap, hne ' ' (by decide), hne '\t' (by decide), hne '\r' (by decide)]

/-! ## Steps of the scanner -/

variable {line col : Nat} {c : Char} {cs rest : List Char}

theorem scanLine_gap (h : isGap c = true) :
    scanLine line col (c :: cs) = scanLine line (col + 1) cs := by
  have hsign : c ≠ '#' := by
    rintro rfl
    exact absurd h (by decide)
  rw [scanLine, if_neg hsign, if_pos h]

theorem scanLine_number {n : Numeral} (hsign : c ≠ '#') (hgap : isGap c = false)
    (h : Numeral.scan (c :: cs) = some (n, rest)) :
    scanLine line col (c :: cs) =
      (⟨.number, String.ofList n.chars, ⟨line, col⟩⟩ :: ·) <$>
        scanLine line (col + n.chars.length) rest := by
  rw [scanLine, if_neg hsign, if_neg (by simp [hgap])]
  split
  · next heq =>
    obtain ⟨rfl, rfl⟩ := Prod.mk.inj (Option.some.inj (heq.symm.trans h))
    cases scanLine line (col + _) _ <;> rfl
  · next heq => exact absurd (heq.symm.trans h) (by simp)

theorem scanLine_name {name : List Char} (hsign : c ≠ '#') (hgap : isGap c = false)
    (hnumber : Numeral.scan (c :: cs) = none) (h : scanName (c :: cs) = some (name, rest)) :
    scanLine line col (c :: cs) =
      (⟨.name, String.ofList name, ⟨line, col⟩⟩ :: ·) <$>
        scanLine line (col + name.length) rest := by
  rw [scanLine, if_neg hsign, if_neg (by simp [hgap])]
  split
  · next heq => exact absurd (hnumber.symm.trans heq) (by simp)
  · split
    · next heq =>
      obtain ⟨rfl, rfl⟩ := Prod.mk.inj (Option.some.inj (heq.symm.trans h))
      cases scanLine line (col + _) _ <;> rfl
    · next heq => exact absurd (heq.symm.trans h) (by simp)

theorem scanLine_mark {kind : TokenKind} (h : markKind? c = some kind) :
    scanLine line col (c :: cs) =
      (⟨kind, String.singleton c, ⟨line, col⟩⟩ :: ·) <$> scanLine line (col + 1) cs := by
  have hmark : c = '(' ∨ c = ')' ∨ c = ',' ∨ c = '=' ∨ c = '-' := by
    unfold markKind? at h
    split at h <;> simp at h <;> simp
  have hfacts : c ≠ '#' ∧ isGap c = false ∧ isDigit c = false ∧ c ≠ '.' ∧ startsName c = false := by
    rcases hmark with rfl | rfl | rfl | rfl | rfl <;> decide
  obtain ⟨hsign, hgap, hdigit, hpoint, hstart⟩ := hfacts
  have hnumber := Numeral.scan_eq_none hdigit hpoint cs
  have hname : scanName (c :: cs) = none := by simp [scanName, hstart]
  rw [scanLine, if_neg hsign, if_neg (by simp [hgap])]
  split
  · next heq => exact absurd (hnumber.symm.trans heq) (by simp)
  · split
    · next heq => exact absurd (hname.symm.trans heq) (by simp)
    · rw [h]
      cases scanLine line (col + 1) cs <;> rfl

/-! ## Texts put together from tokens -/

/-- Whether a text cannot go on with a name or a numeral that ends before it. -/
def Breaks (rest : List Char) : Prop :=
  ∀ c ∈ rest.head?, continuesName c = false ∧ isDigit c = false ∧ c ≠ '.'

theorem Breaks.nil : Breaks [] := by
  intro c hc
  cases hc

theorem Breaks.cons {c : Char} (hname : continuesName c = false) (hdigit : isDigit c = false)
    (hpoint : c ≠ '.') (cs : List Char) : Breaks (c :: cs) := by
  intro d hd
  obtain rfl := Option.some.inj hd
  exact ⟨hname, hdigit, hpoint⟩

theorem Breaks.append {cs rest : List Char} (h : Breaks cs) (hrest : Breaks rest) :
    Breaks (cs ++ rest) := by
  cases cs with
  | nil => exact hrest
  | cons c cs => exact h

theorem Breaks.ends {rest : List Char} (h : Breaks rest) : Numeral.Ends rest := by
  intro c hc
  obtain ⟨hname, hdigit, hpoint⟩ := h c hc
  refine ⟨hdigit, hpoint, ?_, ?_⟩
  · rintro rfl
    exact absurd hname (by decide)
  · rintro rfl
    exact absurd hname (by decide)

/-- Whether `cs`, from column `col` of a line on, is the tokens `ts`, whatever comes after it that
cannot go on with the last one. -/
def Scans (line col : Nat) (cs : List Char) (ts : List Token) : Prop :=
  ∀ rest, Breaks rest →
    scanLine line col (cs ++ rest) = (ts ++ ·) <$> scanLine line (col + cs.length) rest

namespace Scans

variable {ts us : List Token}

theorem nil (line col : Nat) : Scans line col [] [] := by
  intro rest _
  simp

/-- A blank in front adds no token. -/
theorem gap (hgap : isGap c = true) (h : Scans line (col + 1) cs ts) :
    Scans line col (c :: cs) ts := by
  intro rest hrest
  rw [List.cons_append, scanLine_gap hgap, h rest hrest, List.length_cons]
  congr 2
  omega

/-- A mark in front is a token of its own. -/
theorem mark {kind : TokenKind} (hmark : markKind? c = some kind)
    (h : Scans line (col + 1) cs ts) :
    Scans line col (c :: cs) (⟨kind, String.singleton c, ⟨line, col⟩⟩ :: ts) := by
  intro rest hrest
  rw [List.cons_append, scanLine_mark hmark, h rest hrest, List.length_cons, Functor.map_map]
  congr 2
  omega

/-- A name in front is a token if it ends where the rest begins. -/
theorem name {cs' : List Char} (hstart : startsName c = true)
    (hname : ∀ d ∈ cs', continuesName d = true) (hbreaks : Breaks cs)
    (h : Scans line (col + (c :: cs').length) cs ts) :
    Scans line col ((c :: cs') ++ cs)
      (⟨.name, String.ofList (c :: cs'), ⟨line, col⟩⟩ :: ts) := by
  intro rest hrest
  obtain ⟨hsign, hgap, hpoint⟩ := ne_of_startsName hstart
  obtain ⟨htake, hdrop⟩ := span_append hname
    fun d hd => ((hbreaks.append hrest) d hd).1
  have hscan : scanName (c :: (cs' ++ (cs ++ rest))) = some (c :: cs', cs ++ rest) := by
    simp [scanName, hstart, htake, hdrop]
  rw [List.append_assoc, List.cons_append, scanLine_name hsign hgap
    (Numeral.scan_eq_none (isDigit_of_startsName hstart) hpoint _) hscan, h rest hrest,
    List.length_append, Functor.map_map]
  congr 2
  omega

/-- A numeral in front is a token if it ends where the rest begins. -/
theorem number {n : Numeral} (hn : n.IsProper) (hbreaks : Breaks cs)
    (h : Scans line (col + n.chars.length) cs ts) :
    Scans line col (n.chars ++ cs) (⟨.number, String.ofList n.chars, ⟨line, col⟩⟩ :: ts) := by
  intro rest hrest
  have hscan := Numeral.scan_chars_append hn (hbreaks.append hrest).ends
  obtain ⟨c, cs', hchars, hc⟩ := hn.exists_cons
  have hfacts : c ≠ '#' ∧ isGap c = false := by
    have hne : ∀ d : Char, isDigit d = false → d ≠ '.' → c ≠ d := by
      rintro d hd hpoint rfl
      rcases hc with hc | hc
      · exact absurd hc (by simp [hd])
      · exact hpoint hc
    refine ⟨hne '#' (by decide) (by decide), ?_⟩
    simp [isGap, hne ' ' (by decide) (by decide), hne '\t' (by decide) (by decide),
      hne '\r' (by decide) (by decide)]
  have hfront : n.chars ++ cs ++ rest = c :: (cs' ++ (cs ++ rest)) := by
    rw [hchars, List.append_assoc, List.cons_append]
  rw [← List.append_assoc, hfront] at hscan
  rw [hfront, scanLine_number hfacts.1 hfacts.2 hscan, h rest hrest, List.length_append,
    Functor.map_map]
  congr 2
  omega

/-- Two texts one after the other are the tokens of both, if the second cannot go on with what the
first ends in. -/
theorem append {cs' : List Char} (h : Scans line col cs ts)
    (h' : Scans line (col + cs.length) cs' us) (hbreaks : Breaks cs') :
    Scans line col (cs ++ cs') (ts ++ us) := by
  intro rest hrest
  rw [List.append_assoc, h _ (hbreaks.append hrest), h' rest hrest, List.length_append,
    Functor.map_map]
  simp only [List.append_assoc, Nat.add_assoc]

/-- A text at the end of a line is its tokens. -/
theorem scanLine_eq (h : Scans line col cs ts) : scanLine line col cs = .ok ts := by
  have hend := h [] Breaks.nil
  rw [List.append_nil] at hend
  rw [hend, scanLine]
  simp

end Scans

end Token

/-! ## Lines of a text -/

namespace Text

/-- What is no line break goes in front of the first line. -/
theorem lines_cons {c : Char} (hc : isBreak c = false) (cs : List Char) :
    lines (c :: cs) = (c :: (lines cs).headD []) :: (lines cs).tail := by
  rw [lines]
  · rw [if_neg (by simp [hc])]
    cases lines cs <;> rfl
  · intro rest hreturn
    subst hreturn
    exact absurd hc (by decide)

/-- A line break ends an empty line. Two characters may be one break. -/
theorem lines_break {c : Char} (hc : isBreak c = true) (cs : List Char) :
    lines (c :: cs) = [] :: lines cs ∨
      ∃ rest, cs = '\n' :: rest ∧ lines (c :: cs) = [] :: lines rest := by
  by_cases hpair : c = '\r' ∧ ∃ rest, cs = '\n' :: rest
  · obtain ⟨rfl, rest, rfl⟩ := hpair
    exact .inr ⟨rest, rfl, rfl⟩
  · refine .inl ?_
    rw [lines]
    · rw [if_pos hc]
    · intro rest hreturn hfeed
      exact hpair ⟨hreturn, rest, hfeed⟩

theorem exists_lines_of_break {c : Char} (hc : isBreak c = true) (cs : List Char) :
    ∃ more, lines (c :: cs) = [] :: more := by
  obtain heq | ⟨rest, _, heq⟩ := lines_break hc cs
  · exact ⟨_, heq⟩
  · exact ⟨_, heq⟩

theorem eq_nil_of_lines {cs : List Char} (h : lines cs = []) : cs = [] := by
  cases cs with
  | nil => rfl
  | cons c cs =>
    exfalso
    cases hc : isBreak c with
    | true =>
      obtain ⟨more, heq⟩ := exists_lines_of_break hc cs
      rw [h] at heq
      cases heq
    | false =>
      rw [lines_cons hc] at h
      cases h

/-- The first line of a text stands in front of it. -/
theorem first_line_begins {cs line : List Char} {more : List (List Char)}
    (h : lines cs = line :: more) : line <+: cs := by
  induction cs generalizing line more with
  | nil => cases h
  | cons c cs ih =>
    cases hc : isBreak c with
    | true =>
      obtain ⟨more', heq⟩ := exists_lines_of_break hc cs
      rw [(List.cons.inj (h.symm.trans heq)).1]
      exact List.nil_prefix
    | false =>
      rw [lines_cons hc] at h
      rw [← (List.cons.inj h).1, List.cons_prefix_cons]
      cases hlines : lines cs with
      | nil => exact ⟨rfl, List.nil_prefix⟩
      | cons first others => exact ⟨rfl, ih hlines⟩

theorem lines_append {run rest line : List Char} {more : List (List Char)}
    (hrun : ∀ c ∈ run, isBreak c = false) (h : lines rest = line :: more) :
    lines (run ++ rest) = (run ++ line) :: more := by
  induction run with
  | nil => exact h
  | cons c run ih =>
    obtain ⟨hc, hrun⟩ := List.forall_mem_cons.1 hrun
    rw [List.cons_append, lines_cons hc, ih hrun]
    rfl

/-- A text without line breaks is one line. -/
theorem lines_eq_singleton {cs : List Char} (hne : cs ≠ [])
    (hbreak : ∀ c ∈ cs, isBreak c = false) : lines cs = [cs] := by
  induction cs with
  | nil => exact absurd rfl hne
  | cons c cs ih =>
    obtain ⟨hc, hcs⟩ := List.forall_mem_cons.1 hbreak
    rw [lines_cons hc]
    cases cs with
    | nil => rfl
    | cons d ds =>
      rw [ih (List.cons_ne_nil d ds) hcs]
      rfl

end Text

/-- A text of one line is scanned as that line. -/
theorem Token.Scans.scan_ofList {cs : List Char} {ts : List Token} (h : Scans 1 1 cs ts)
    (hne : cs ≠ []) (hbreak : ∀ c ∈ cs, Text.isBreak c = false) :
    scan (String.ofList cs) = .ok ts := by
  rw [scan, String.toList_ofList, Text.lines_eq_singleton hne hbreak]
  simp only [scanLines, h.scanLine_eq]
  simp [bind, Except.bind, pure, Except.pure]

end Planar
