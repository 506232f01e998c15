import Planar.Proofs.Source.Snippets

/-!
# Layout does not matter

Blanks, line breaks and comments between tokens have no part in what a text means. Tokens that are
written in order with any of these between them are scanned as tokens of the same shapes, and the
parser goes by shapes.

* `Token.scanFrom` — the tokens of a text that goes on in the middle of a line;
* `Token.Reads`, `Token.Writes` — a text is tokens of given shapes, wherever it stands;
* `IsFiller`, `LaidOut` — what may stand between tokens, and tokens with such things around them;
* `LaidOut.reads` — laid out tokens are scanned as tokens of the same shapes;
* `SameParse`, `sameParse_of_shapes` — texts of the same shapes are equal programs, or they are
  refused with the same words;
* `layout_irrelevant` — laying out the tokens of a text again changes neither their shapes nor the
  program.
-/

namespace Planar

open Token (Scans Breaks isGap)

/-! ## Texts that go on in the middle of a line -/

namespace Token

variable {line col : Nat} {c : Char} {cs rest : List Char} {ts : List Token}

/-- The tokens of a text that goes on at a place of a line. -/
def scanFrom (line col : Nat) (cs : List Char) : Except ParseFault (List Token) :=
  match Text.lines cs with
  | [] => .ok []
  | first :: more => do
    let tokens ← scanLine line col first
    let others ← scanLines (line + 1) more
    return tokens ++ others

theorem scanFrom_one (line : Nat) (cs : List Char) :
    scanFrom line 1 cs = scanLines line (Text.lines cs) := by
  unfold scanFrom
  split
  · next h => rw [h]; rfl
  · next h => rw [h]; rfl

theorem scan_eq_scanFrom (text : String) : scan text = scanFrom 1 1 text.toList :=
  (scanFrom_one 1 text.toList).symm

/-- After a line break the scan begins a line. -/
theorem scanFrom_of_lines_eq (h : Text.lines cs = [] :: Text.lines rest) :
    scanFrom line col cs = scanFrom (line + 1) 1 rest := by
  rw [scanFrom_one, scanFrom, h]
  dsimp only
  rw [scanLine]
  cases scanLines (line + 1) (Text.lines rest) <;> rfl

/-- A comment is passed over up to its line break. -/
theorem scanFrom_comment {body : List Char} (hbody : ∀ d ∈ body, Text.isBreak d = false)
    (hc : Text.isBreak c = true) :
    scanFrom line col ('#' :: (body ++ c :: rest)) = scanFrom line col (c :: rest) := by
  have hsign : ∀ d ∈ '#' :: body, Text.isBreak d = false :=
    List.forall_mem_cons.2 ⟨by decide, hbody⟩
  obtain ⟨more, hmore⟩ := Text.exists_lines_of_break hc rest
  have hlines := Text.lines_append hsign hmore
  rw [List.cons_append] at hlines
  have hcomment : scanLine line col ('#' :: body ++ []) = .ok [] := by
    rw [List.cons_append, scanLine, if_pos rfl]
  rw [scanFrom, scanFrom, hlines, hmore]
  dsimp only
  rw [hcomment, scanLine]

/-- A run without line breaks is scanned as it is in front of the rest of its line. -/
theorem scanFrom_append {run : List Char} (hrun : ∀ d ∈ run, Text.isBreak d = false)
    (hne : run ≠ [])
    (h : ∀ tail, tail <+: rest → scanLine line col (run ++ tail) =
      (ts ++ ·) <$> scanLine line (col + run.length) tail) :
    scanFrom line col (run ++ rest) = (ts ++ ·) <$> scanFrom line (col + run.length) rest := by
  cases hlines : Text.lines rest with
  | nil =>
    -- nothing follows, so the run ends its line
    have hend := h [] List.nil_prefix
    obtain rfl := Text.eq_nil_of_lines hlines
    rw [List.append_nil] at hend
    rw [List.append_nil, scanFrom, scanFrom, Text.lines_eq_singleton hne hrun, hlines]
    dsimp only
    rw [hend, scanLine]
    exact congrArg Except.ok (List.append_nil _)
  | cons first more =>
    rw [scanFrom, scanFrom, Text.lines_append hrun hlines, hlines]
    dsimp only
    rw [h first (Text.first_line_begins hlines)]
    cases scanLine line (col + run.length) first with
    | error fault => rfl
    | ok us =>
      cases scanLines (line + 1) more with
      | error fault => rfl
      | ok vs => exact congrArg Except.ok (List.append_assoc ts us vs)

/-! ## Texts as rows of shapes -/

theorem Breaks.shorter {tail : List Char} (h : Breaks cs) (htail : tail <+: cs) :
    Breaks tail := by
  obtain ⟨more, rfl⟩ := htail
  cases tail with
  | nil => exact Breaks.nil
  | cons d tail => exact h

theorem Breaks.line_break (hc : Text.isBreak c = true) (cs : List Char) : Breaks (c :: cs) := by
  have hne : ∀ d : Char, Text.isBreak d = false → c ≠ d := by
    intro d hd heq
    rw [heq, hd] at hc
    cases hc
  refine Breaks.cons ?_ ?_ (hne '.' (by decide)) cs
  · rw [Bool.eq_false_iff]
    intro hname
    exact hne c (Text.isBreak_of_continuesName hname) rfl
  · rw [Bool.eq_false_iff]
    intro hdigit
    exact hne c (Text.isBreak_of_isDigit hdigit) rfl

/-- Whether a text is, at whatever place it goes on, tokens of the given shapes. -/
def Reads (cs : List Char) (shapes : List (TokenKind × String)) : Prop :=
  ∀ line col, ∃ ts, scanFrom line col cs = .ok ts ∧ ts.map shape = shapes

namespace Reads

variable {shapes : List (TokenKind × String)} {kind : TokenKind}

theorem nil : Reads [] [] := by
  intro line col
  exact ⟨[], rfl, rfl⟩

theorem exists_scan {text : String} (h : Reads text.toList shapes) :
    ∃ ts, scan text = .ok ts ∧ ts.map shape = shapes := by
  rw [scan_eq_scanFrom]
  exact h 1 1

/-- A run without line breaks adds its own shapes. -/
theorem append_run {run : List Char} {added : List (TokenKind × String)}
    (hrun : ∀ d ∈ run, Text.isBreak d = false) (hne : run ≠ [])
    (hscan : ∀ line col, ∃ us : List Token, us.map shape = added ∧
      ∀ tail, tail <+: cs → scanLine line col (run ++ tail) =
        (us ++ ·) <$> scanLine line (col + run.length) tail)
    (h : Reads cs shapes) : Reads (run ++ cs) (added ++ shapes) := by
  intro line col
  obtain ⟨us, hus, hscan⟩ := hscan line col
  obtain ⟨ts, hts, hshapes⟩ := h line (col + run.length)
  refine ⟨us ++ ts, ?_, ?_⟩
  · rw [scanFrom_append hrun hne hscan, hts]
    rfl
  · rw [List.map_append, hus, hshapes]

theorem gap (hc : c = ' ' ∨ c = '\t') (h : Reads cs shapes) : Reads (c :: cs) shapes := by
  have hgap : isGap c = true ∧ Text.isBreak c = false := by
    rcases hc with rfl | rfl <;> decide
  show Reads ([c] ++ cs) ([] ++ shapes)
  refine append_run ?_ (by simp) ?_ h
  · simpa using hgap.2
  · intro line col
    refine ⟨[], rfl, ?_⟩
    intro tail _
    simp [scanLine_gap hgap.1]

theorem mark (hc : markKind? c = some kind) (h : Reads cs shapes) :
    Reads (c :: cs) ((kind, String.singleton c) :: shapes) := by
  show Reads ([c] ++ cs) ([(kind, String.singleton c)] ++ shapes)
  refine append_run ?_ (by simp) ?_ h
  · have hinline := (IsLexeme.mark hc).inline
    rwa [Inline, String.toList_singleton] at hinline
  · intro line col
    refine ⟨[⟨kind, String.singleton c, ⟨line, col⟩⟩], rfl, ?_⟩
    intro tail _
    exact scanLine_mark hc

theorem lexeme {word : String} (hword : IsLexeme kind word) (hbreaks : Breaks cs)
    (h : Reads cs shapes) : Reads (word.toList ++ cs) ((kind, word) :: shapes) := by
  show Reads (word.toList ++ cs) ([(kind, word)] ++ shapes)
  refine append_run hword.inline ?_ ?_ h
  · obtain ⟨c, more, hcons, _⟩ := hword.exists_cons
    simp [hcons]
  · intro line col
    refine ⟨[⟨kind, word, ⟨line, col⟩⟩], rfl, ?_⟩
    intro tail htail
    exact scans_lexeme hword line col tail (hbreaks.shorter htail)

/-- A line break adds no token. It may be one break with the character after it. -/
theorem line_break (hc : Text.isBreak c = true) (h : Reads cs shapes) :
    Reads (c :: cs) shapes := by
  intro line col
  obtain hlines | ⟨rest, rfl, hlines⟩ := Text.lines_break hc cs
  · rw [scanFrom_of_lines_eq hlines]
    exact h (line + 1) 1
  · -- the line feed belongs to the break before it, so the rest is one line further up than after a
    -- line feed of its own; `Reads` holds there as well
    have hfeed : Text.lines ('\n' :: rest) = [] :: Text.lines rest := rfl
    obtain ⟨ts, hts, hshapes⟩ := h line 1
    rw [scanFrom_of_lines_eq hfeed] at hts
    rw [scanFrom_of_lines_eq hlines]
    exact ⟨ts, hts, hshapes⟩

theorem comment {body : List Char} (hbody : ∀ d ∈ body, Text.isBreak d = false)
    (hc : Text.isBreak c = true) (h : Reads cs shapes) :
    Reads ('#' :: (body ++ c :: cs)) shapes := by
  intro line col
  rw [scanFrom_comment hbody hc]
  exact h.line_break hc line col

end Reads

end Token

/-! ## Laying out tokens -/

/-- What may stand between tokens: blanks, line breaks, and comments with the line breaks that end
them. -/
inductive IsFiller : List Char → Prop where
  | nil : IsFiller []
  | blank {c : Char} {cs : List Char} (hc : c = ' ' ∨ c = '\t') (h : IsFiller cs) :
      IsFiller (c :: cs)
  | line_break {c : Char} {cs : List Char} (hc : Text.isBreak c = true) (h : IsFiller cs) :
      IsFiller (c :: cs)
  | comment {body : List Char} {c : Char} {cs : List Char}
      (hbody : ∀ d ∈ body, Text.isBreak d = false) (hc : Text.isBreak c = true)
      (h : IsFiller cs) : IsFiller ('#' :: (body ++ c :: cs))

/-- Words in order, each with filler after it, which is not empty before another word. -/
inductive LaidOut : List String → List Char → Prop where
  | nil : LaidOut [] []
  | cons {word : String} {words : List String} {gap cs : List Char} (hgap : IsFiller gap)
      (hapart : words ≠ [] → gap ≠ []) (h : LaidOut words cs) :
      LaidOut (word :: words) (word.toList ++ (gap ++ cs))

/-- Whether a text is some words in order, with filler around them and between any two. -/
def IsLayout (words : List String) (text : String) : Prop :=
  ∃ lead cs, IsFiller lead ∧ LaidOut words cs ∧ text.toList = lead ++ cs

namespace IsFiller

variable {gap cs : List Char} {shapes : List (TokenKind × String)}

/-- Filler in front of a text adds no tokens. -/
theorem reads (hgap : IsFiller gap) (h : Token.Reads cs shapes) :
    Token.Reads (gap ++ cs) shapes := by
  induction hgap with
  | nil => exact h
  | blank hc _ ih => exact .gap hc ih
  | line_break hc _ ih => exact .line_break hc ih
  | comment hbody hc _ ih =>
    rw [List.cons_append, List.append_assoc, List.cons_append]
    exact .comment hbody hc ih

/-- Filler ends the token before it. -/
theorem breaks (hgap : IsFiller gap) (hne : gap ≠ []) (cs : List Char) : Breaks (gap ++ cs) := by
  cases hgap with
  | nil => exact absurd rfl hne
  | blank hc =>
    refine Breaks.gap ?_ _
    rcases hc with rfl | rfl <;> decide
  | line_break hc => exact Breaks.line_break hc _
  | comment => exact Breaks.cons (by decide) (by decide) (by decide) _

end IsFiller

theorem LaidOut.eq_nil {cs : List Char} (h : LaidOut [] cs) : cs = [] := by
  cases h
  rfl

/-- Lexemes that are laid out are scanned as tokens of their shapes. -/
theorem LaidOut.reads {words : List String} {cs : List Char} (h : LaidOut words cs)
    {shapes : List (TokenKind × String)} (hwords : shapes.map Prod.snd = words)
    (hlexemes : ∀ s ∈ shapes, IsLexeme s.1 s.2) : Token.Reads cs shapes := by
  induction h generalizing shapes with
  | nil =>
    rw [List.map_eq_nil_iff.1 hwords]
    exact .nil
  | @cons word words gap cs hgap hapart h ih =>
    obtain ⟨⟨kind, _⟩, rest, rfl, rfl, hrest⟩ := List.map_eq_cons_iff.1 hwords
    obtain ⟨hlexeme, hlexemes⟩ := List.forall_mem_cons.1 hlexemes
    refine .lexeme hlexeme ?_ (hgap.reads (ih hrest hlexemes))
    by_cases hne : gap = []
    · -- only the last word has nothing after it
      have hlast : words = [] := by_contra fun hwords => hapart hwords hne
      subst hne hlast
      rw [h.eq_nil]
      exact Breaks.nil
    · exact hgap.breaks hne cs

/-! ## Texts of the same shapes -/

/-- Whether a message is some words after a place of a text, with a snippet of that place. -/
def PutsAt (text detail message : String) : Prop :=
  ∃ (row k : Nat) (cs : List Char), (Text.lines text.toList)[row]? = some cs ∧ k < cs.length ∧
    message = (⟨1 + row, 1 + k⟩ : Span).mark ++ detail ++ Diagnostic.snippet cs (1 + k)

/-- Messages about two texts that differ at most in their places and snippets. -/
inductive SameWords (text text' : String) : String → String → Prop where
  | unplaced {message : String} (hplace : Diagnostic.place? message.toList = none) :
      SameWords text text' message message
  | placed {detail message message' : String} (hdetail : Inline detail)
      (h : PutsAt text detail message) (h' : PutsAt text' detail message') :
      SameWords text text' message message'

/-- Whether two texts are equal programs, up to places, or are refused with the same words. -/
def SameParse (text text' : String) : Prop :=
  (∃ e e', Expr.parse text = .ok e ∧ Expr.parse text' = .ok e' ∧ e.unplaced = e'.unplaced) ∨
    ∃ message message', Expr.parse text = .error message ∧ Expr.parse text' = .error message' ∧
      SameWords text text' message message'

theorem putsAt_of_scan {text detail : String} {ts : List Token} {t : Token}
    (hscan : Token.scan text = .ok ts) (ht : t ∈ ts) (hdetail : Inline detail) :
    PutsAt text detail (Diagnostic.located text (t.span.mark ++ detail)) := by
  obtain ⟨row, k, cs, c, rest, hrow, hspan, _, hc⟩ := Token.exists_first_char hscan ht
  have hk : k < cs.length := (List.getElem?_eq_some_iff.1 hc).1
  refine ⟨row, k, cs, hrow, hk, ?_⟩
  rw [hspan, Diagnostic.located_mark hrow hdetail]

theorem place?_endOfInput (wanted : Option TokenKind) :
    Diagnostic.place? (ParseFault.endOfInput (wantedText wanted)).message.toList = none := by
  rcases wanted with _ | kind
  · decide +kernel
  · cases kind <;> decide +kernel

/-- The same fault on the tokens of two texts is told in the same words. -/
theorem SameFault.sameWords {text text' : String} {ts ts' : List Token}
    {fault fault' : ParseFault} (h : SameFault ts ts' fault fault')
    (hscan : Token.scan text = .ok ts) (hscan' : Token.scan text' = .ok ts') :
    SameWords text text' (Diagnostic.located text fault.message)
      (Diagnostic.located text' fault'.message) := by
  have unplaced (message : String) (hplace : Diagnostic.place? message.toList = none) :
      SameWords text text' (Diagnostic.located text message)
        (Diagnostic.located text' message) := by
    rw [Diagnostic.located_eq_self text hplace, Diagnostic.located_eq_self text' hplace]
    exact .unplaced hplace
  cases h with
  | noTokens => exact unplaced _ (by decide +kernel)
  | atEnd wanted => exact unplaced _ (place?_endOfInput wanted)
  | @atToken objection t u ht hu hshape =>
    have hinline := (Token.isLexeme_of_scan hscan ht).inline
    obtain ⟨detail, hdetail, hmessage⟩ := objection.exists_detail t.kind hinline
    have hu' : u = ⟨t.kind, t.text, u.span⟩ := by
      obtain ⟨hkind, htext⟩ := Prod.mk.inj hshape
      rw [hkind, htext]
    rw [hu', hmessage u.span, show (objection.fault t).message = _ from hmessage t.span]
    exact .placed hdetail (putsAt_of_scan hscan ht hdetail) (putsAt_of_scan hscan' hu hdetail)

/-- Texts whose tokens have the same shapes are equal programs, or are refused with the same
words. -/
theorem sameParse_of_shapes {text text' : String} {ts ts' : List Token}
    (hscan : Token.scan text = .ok ts) (hscan' : Token.scan text' = .ok ts')
    (hshapes : ts.map Token.shape = ts'.map Token.shape) : SameParse text text' := by
  obtain ⟨e, e', he, he', heq⟩ | ⟨fault, fault', hfault, hfault', hsame⟩ :=
    Parser.program_cases hshapes
  · exact .inl ⟨e, e', (Expr.parse_eq_ok_iff hscan).2 he, (Expr.parse_eq_ok_iff hscan').2 he', heq⟩
  · exact .inr ⟨_, _, Expr.parse_eq_error hscan hfault, Expr.parse_eq_error hscan' hfault',
      hsame.sameWords hscan hscan'⟩

/-- A text of the same tokens with other filler is scanned as tokens of the same shapes, and it is
an equal program or is refused with the same words. -/
theorem layout_irrelevant (text text' : String) (ts : List Token) (hscan : Token.scan text = .ok ts)
    (h : IsLayout (ts.map Token.text) text') :
    (∃ ts', Token.scan text' = .ok ts' ∧ ts'.map Token.shape = ts.map Token.shape) ∧
      SameParse text text' := by
  obtain ⟨lead, cs, hlead, hlaid, htext⟩ := h
  have hlexemes : ∀ s ∈ ts.map Token.shape, IsLexeme s.1 s.2 := by
    intro s hs
    obtain ⟨t, ht, rfl⟩ := List.mem_map.1 hs
    exact Token.isLexeme_of_scan hscan ht
  have hwords : (ts.map Token.shape).map Prod.snd = ts.map Token.text := by
    rw [List.map_map]
    rfl
  have hreads : Token.Reads text'.toList (ts.map Token.shape) := by
    rw [htext]
    exact hlead.reads (hlaid.reads hwords hlexemes)
  obtain ⟨ts', hscan', hshapes⟩ := hreads.exists_scan
  exact ⟨⟨ts', hscan', hshapes⟩, sameParse_of_shapes hscan hscan' hshapes.symm⟩

/-- A comment before a line break of two characters, a Unicode separator, a comment right after a
numeral, and a carriage return. -/
theorem layout_irrelevant_scattered :
    ∃ ts, Token.scan "let x=.5.5e" = .ok ts ∧
      ts.map Token.text = ["let", "x", "=", ".5", ".5", "e"] ∧
      IsLayout (ts.map Token.text) "#(\r\nlet\tx\u2028= .5#e\n.5\re \t" ∧
      (∃ ts', Token.scan "#(\r\nlet\tx\u2028= .5#e\n.5\re \t" = .ok ts' ∧
        ts'.map Token.shape = ts.map Token.shape) ∧
      SameParse "let x=.5.5e" "#(\r\nlet\tx\u2028= .5#e\n.5\re \t" := by
  have hscan : Token.scan "let x=.5.5e" = .ok
      [⟨.name, "let", ⟨1, 1⟩⟩, ⟨.name, "x", ⟨1, 5⟩⟩, ⟨.equal, "=", ⟨1, 6⟩⟩,
        ⟨.number, ".5", ⟨1, 7⟩⟩, ⟨.number, ".5", ⟨1, 9⟩⟩, ⟨.name, "e", ⟨1, 11⟩⟩] := by
    decide +kernel
  have hletter : ∀ d ∈ ['e'], Text.isBreak d = false := List.forall_mem_singleton.2 (by decide)
  have hlaid : LaidOut ["let", "x", "=", ".5", ".5", "e"] ("let".toList ++ (['\t'] ++
      ("x".toList ++ (['\u2028'] ++ ("=".toList ++ ([' '] ++ (".5".toList ++
        (('#' :: (['e'] ++ '\n' :: [])) ++ (".5".toList ++ (['\r'] ++
          ("e".toList ++ ([' ', '\t'] ++ [])))))))))))) :=
    .cons (.blank (.inr rfl) .nil) (by simp) (.cons (.line_break rfl .nil) (by simp)
      (.cons (.blank (.inl rfl) .nil) (by simp) (.cons (.comment hletter rfl .nil) (by simp)
        (.cons (.line_break rfl .nil) (by simp)
          (.cons (.blank (.inl rfl) (.blank (.inr rfl) .nil)) (by simp) .nil)))))
  have hlead : IsFiller ('#' :: (['('] ++ '\r' :: ['\n'])) :=
    .comment (List.forall_mem_singleton.2 (by decide)) rfl (.line_break rfl .nil)
  exact ⟨_, hscan, rfl, ⟨_, _, hlead, hlaid, rfl⟩,
    layout_irrelevant _ _ _ hscan ⟨_, _, hlead, hlaid, rfl⟩⟩

end Planar
