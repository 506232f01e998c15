import Planar.Proofs.Source.ErrorPlace
import Planar.Proofs.Source.Shapes
import Planar.Proofs.Source.Tiling

/-!
# Messages with snippets

The place of a syntax error is read back from its message. A message quotes what it found, so that
it has one line whatever the text is, and it begins with its place. The line that is shown below it
is then the one that the scanner counted.

* `inline_quoted` — quoted text has one line;
* `Diagnostic.place?_mark` — the first place that a message names is the one it begins with;
* `Diagnostic.located_mark` — so the snippet shows that place;
* `Objection.exists_detail`, `Parser.exists_detail` — what the parser says is the mark of a place,
  if there is one, and one line of text;
* `parse_error_snippet` — every message for a text that is no program has no place or shows the
  character that it is about.
-/

namespace Planar

/-! ## Messages of one line -/

namespace Text

/-- No line break stands for itself in quoted text. -/
theorem isBreak_of_isPrintable {c : Char} (h : isPrintable c = true) : isBreak c = false := by
  have hturns : ∀ n ∈ [0xa, 0xb, 0xc, 0xd, 0x1c, 0x1d, 0x1e, 0x85, 0x2028, 0x2029],
      (printableTurns.takeWhile (· ≤ n)).length % 2 ≠ 1 := by
    decide +kernel
  rw [Bool.eq_false_iff]
  intro hbreak
  refine hturns c.toNat ?_ (beq_iff_eq.1 h)
  simp only [isBreak, Bool.or_eq_true, Bool.and_eq_true, decide_eq_true_eq, beq_iff_eq] at hbreak
  simp only [List.mem_cons, List.not_mem_nil, or_false]
  omega

theorem isBreak_of_mem_hex {width n : Nat} {c : Char} (h : c ∈ hex width n) :
    isBreak c = false := by
  have hdigits : ∀ d < 16, isBreak (Nat.digitChar d) = false := by decide
  induction width generalizing n with
  | zero => cases h
  | succ width ih =>
    rcases List.mem_append.1 h with h | h
    · exact ih h
    · rw [List.mem_singleton.1 h]
      exact hdigits _ (Nat.mod_lt n (by decide))

theorem isBreak_quoteFor (cs : List Char) : isBreak (quoteFor cs) = false := by
  unfold quoteFor
  split <;> decide

theorem isBreak_of_mem_quoteChar {quote c d : Char} (hquote : isBreak quote = false)
    (h : d ∈ quoteChar quote c) : isBreak d = false := by
  -- an escape is a backslash, a letter and digits
  have escape (letter : Char) (width n : Nat) (hletter : isBreak letter = false)
      (hd : d ∈ '\\' :: letter :: hex width n) : isBreak d = false := by
    rcases List.mem_cons.1 hd with rfl | hd
    · decide
    rcases List.mem_cons.1 hd with rfl | hd
    · exact hletter
    · exact isBreak_of_mem_hex hd
  unfold quoteChar at h
  split at h
  · next hself =>
    rcases List.mem_cons.1 h with rfl | h
    · decide
    rw [List.mem_singleton.1 h]
    rw [Bool.or_eq_true, decide_eq_true_eq, decide_eq_true_eq] at hself
    rcases hself with rfl | rfl
    · exact hquote
    · decide
  split at h
  · exact escape 'n' 0 0 (by decide) h
  split at h
  · exact escape 'r' 0 0 (by decide) h
  split at h
  · exact escape 't' 0 0 (by decide) h
  split at h
  · next hprintable =>
    rw [List.mem_singleton.1 h]
    exact isBreak_of_isPrintable hprintable
  split at h
  · exact escape 'x' 2 c.toNat (by decide) h
  split at h
  · exact escape 'u' 4 c.toNat (by decide) h
  · exact escape 'U' 8 c.toNat (by decide) h

end Text

/-- Quoted text has one line. -/
theorem inline_quoted (s : String) : Inline (Text.quoted s) := by
  intro c hc
  have hquote := Text.isBreak_quoteFor s.toList
  rw [Text.quoted, String.toList_ofList, Text.quoteChars, List.mem_append, List.mem_cons,
    List.mem_flatMap, List.mem_singleton] at hc
  rcases hc with (rfl | ⟨d, _, hd⟩) | rfl
  · exact hquote
  · exact Text.isBreak_of_mem_quoteChar hquote hd
  · exact hquote

theorem toList_toString (n : Nat) : (toString n).toList = Nat.toDigits 10 n := by
  rw [Nat.toString_eq_ofList_toDigits, String.toList_ofList]

theorem inline_toString (n : Nat) : Inline (toString n) := by
  intro c hc
  rw [toList_toString] at hc
  exact Text.isBreak_of_isDigit (Text.isDigit_of_mem_toDigits hc)

theorem Span.inline_mark (line col : Nat) : Inline (⟨line, col⟩ : Span).mark :=
  ((((by decide : Inline "[line ").append (inline_toString line)).append (by decide)).append
    (inline_toString col)).append (by decide)

/-! ## Places read back -/

namespace Diagnostic

theorem after?_append (word cs : List Char) : after? word (word ++ cs) = some cs := by
  induction word with
  | nil => rfl
  | cons w word ih => rw [List.cons_append, after?, if_pos rfl, ih]

theorem digits?_append (n : Nat) {rest : List Char}
    (hrest : ∀ c ∈ rest.head?, Text.isDigit c = false) :
    digits? (Nat.toDigits 10 n ++ rest) = some (Nat.toDigits 10 n, rest) := by
  obtain ⟨htake, hdrop⟩ := span_append (fun _ => Text.isDigit_of_mem_toDigits) hrest
  rw [digits?, htake, hdrop, if_neg (by simp)]

/-- The first place that a message names is the one it begins with. -/
theorem place?_mark (line col : Nat) (detail : String) :
    place? ((⟨line, col⟩ : Span).mark ++ detail).toList =
      some (Nat.toDigits 10 line, Nat.toDigits 10 col) := by
  have htext : ((⟨line, col⟩ : Span).mark ++ detail).toList =
      "[line ".toList ++ (Nat.toDigits 10 line ++ (", col ".toList ++
        (Nat.toDigits 10 col ++ ([']'] ++ ' ' :: detail.toList)))) := by
    rw [← toList_toString, ← toList_toString, String.toList_append, Span.mark]
    simp only [String.toList_append, List.append_assoc]
    rfl
  -- each number ends where the words go on
  have hcomma : ∀ cs : List Char, ∀ c ∈ (", col ".toList ++ cs).head?, Text.isDigit c = false := by
    rintro cs c ⟨⟩
    decide
  have hbracket : ∀ cs : List Char, ∀ c ∈ ([']'] ++ cs).head?, Text.isDigit c = false := by
    rintro cs c ⟨⟩
    decide
  have hhere : placeHere? ((⟨line, col⟩ : Span).mark ++ detail).toList =
      some (Nat.toDigits 10 line, Nat.toDigits 10 col) := by
    rw [htext, placeHere?, after?_append]
    dsimp only [bind, Option.bind]
    rw [digits?_append line (hcomma _)]
    dsimp only
    rw [after?_append]
    dsimp only
    rw [digits?_append col (hbracket _)]
    dsimp only
    rw [after?_append]
    rfl
  cases hcons : ((⟨line, col⟩ : Span).mark ++ detail).toList with
  | nil =>
    rw [htext] at hcons
    cases hcons
  | cons c cs =>
    rw [hcons] at hhere
    rw [place?, hhere]
    rfl

/-- What is shown below a message: a line of the text, and a caret under one of its columns. -/
def snippet (cs : List Char) (col : Nat) : String :=
  "\n    " ++ String.ofList (Text.trimEnd cs) ++ "\n" ++
    String.ofList (List.replicate (4 + col - 1) ' ') ++ "^"

theorem shown_eq_append (message : String) (cs : List Char) (k : Nat) :
    shown message cs (caret k) = message ++ snippet cs (1 + k) := by
  have hcaret : String.ofList (List.replicate (4 + (1 + k) - 1) ' ') =
      "    " ++ String.ofList (List.replicate k ' ') := by
    rw [← String.toList_inj, show 4 + (1 + k) - 1 = 4 + k by omega, List.replicate_add]
    simp
  rw [shown, snippet, caret, hcaret, String.ofList_append]
  simp only [String.append_assoc]
  rfl

/-- A message of one line that begins with a place of the text is shown with a snippet of that
place. -/
theorem located_mark {text detail : String} {row k : Nat} {cs : List Char}
    (hrow : (Text.lines text.toList)[row]? = some cs) (hdetail : Inline detail) :
    located text ((⟨1 + row, 1 + k⟩ : Span).mark ++ detail) =
      (⟨1 + row, 1 + k⟩ : Span).mark ++ detail ++ snippet cs (1 + k) := by
  have hspan : (⟨1 + row, 1 + k⟩ : Span) = ⟨(1 + row : Nat), (1 + k : Nat)⟩ := by
    rw [Span.mk.injEq]
    omega
  rw [hspan]
  have hinline := (Span.inline_mark (1 + row) (1 + k)).append hdetail
  have hfeed : ((⟨(1 + row : Nat), (1 + k : Nat)⟩ : Span).mark ++ detail).toList.contains '\n' =
      false := by
    rw [List.contains_eq_mem, decide_eq_false_iff_not]
    intro hmem
    exact absurd (hinline '\n' hmem) (by decide)
  have hnumbered : numbered? (Text.lines text.toList) (1 + row) = some cs := by
    rw [numbered?, if_neg (by omega), Nat.add_sub_cancel_left, hrow]
  rw [located, named?, hfeed, if_neg Bool.false_ne_true, place?_mark]
  dsimp only
  rw [Text.digitsValue_toDigits, Text.digitsValue_toDigits, hnumbered]
  dsimp only
  rw [Nat.add_sub_cancel_left, shown_eq_append]

end Diagnostic

/-! ## Faults and their messages -/

theorem wantedText_inline (wanted : Option TokenKind) : Inline (wantedText wanted) := by
  rcases wanted with _ | kind
  · decide
  · cases kind <;> decide

/-- A token that lacks line breaks is objected to in one line after its place. -/
theorem Objection.exists_detail (objection : Objection) (kind : TokenKind) {text : String}
    (htext : Inline text) :
    ∃ detail, Inline detail ∧
      ∀ span, (objection.fault ⟨kind, text, span⟩).message = span.mark ++ detail := by
  have hkind : Inline kind.text := wantedText_inline (some kind)
  cases objection with
  | expected wanted =>
    refine ⟨"expected " ++ wantedText wanted ++ ", got " ++ kind.text, ?_, ?_⟩
    · exact (((by decide : Inline "expected ").append (wantedText_inline wanted)).append
        (by decide)).append hkind
    · intro span
      show span.mark ++ "expected " ++ wantedText wanted ++ ", got " ++ kind.text = _
      simp only [String.append_assoc]
  | expectedKeyword k =>
    refine ⟨"expected keyword '" ++ k.text ++ "', got '" ++ text ++ "'", ?_, ?_⟩
    · have hk : Inline k.text := by cases k <;> decide
      exact ((((by decide : Inline "expected keyword '").append hk).append (by decide)).append
        htext).append (by decide)
    · intro span
      show span.mark ++ "expected keyword '" ++ k.text ++ "', got '" ++ text ++ "'" = _
      simp only [String.append_assoc]
  | outOfRange =>
    refine ⟨"number " ++ Text.quoted text ++ " is out of range", ?_, ?_⟩
    · exact ((by decide : Inline "number ").append (inline_quoted text)).append (by decide)
    · intro span
      show span.mark ++ "number " ++ Text.quoted text ++ " is out of range" = _
      simp only [String.append_assoc]
  | reserved =>
    refine ⟨"reserved word '" ++ text ++ "' cannot be used as a name", ?_, ?_⟩
    · exact ((by decide : Inline "reserved word '").append htext).append (by decide)
    · intro span
      show span.mark ++ "reserved word '" ++ text ++ "' cannot be used as a name" = _
      simp only [String.append_assoc]
  | unexpectedKeyword =>
    refine ⟨"unexpected keyword '" ++ text ++ "'", ?_, ?_⟩
    · exact ((by decide : Inline "unexpected keyword '").append htext).append (by decide)
    · intro span
      show span.mark ++ "unexpected keyword '" ++ text ++ "'" = _
      simp only [String.append_assoc]
  | trailing =>
    refine ⟨"unexpected token " ++ Text.quoted text, ?_, ?_⟩
    · exact (by decide : Inline "unexpected token ").append (inline_quoted text)
    · intro span
      show span.mark ++ "unexpected token " ++ Text.quoted text = _
      simp only [String.append_assoc]

theorem Objection.span?_fault (objection : Objection) (t : Token) :
    (objection.fault t).span? = some t.span := by
  cases objection <;> rfl

/-- What the parser says of a row of tokens without line breaks: the mark of a place, if there is
one, and one line of text. -/
theorem Parser.exists_detail {ts : List Token} {fault : ParseFault}
    (hts : ∀ t ∈ ts, Inline t.text) (h : program ts = .error fault) :
    ∃ detail, Inline detail ∧ fault.message = Span.markOf fault.span? ++ detail := by
  have hcases := program_cases (rfl : ts.map Token.shape = ts.map Token.shape)
  rw [h] at hcases
  obtain ⟨_, _, hok, _⟩ | ⟨_, _, hfault, _, hsame⟩ := hcases
  · cases hok
  cases hfault
  cases hsame with
  | noTokens => exact ⟨"empty program: expected expression", by decide, rfl⟩
  | atEnd wanted =>
    refine ⟨"Unexpected end of input: expected " ++ wantedText wanted, ?_, ?_⟩
    · exact (by decide : Inline "Unexpected end of input: expected ").append
        (wantedText_inline wanted)
    · exact String.empty_append.symm
  | @atToken objection t _ ht _ _ =>
    obtain ⟨detail, hdetail, hmessage⟩ := objection.exists_detail t.kind (hts t ht)
    refine ⟨detail, hdetail, ?_⟩
    rw [objection.span?_fault t]
    exact hmessage t.span

/-! ## The message of a text that is no program -/

/-- What is wrong at a place of a text: a character that starts nothing, or the first character of a
token with which the tokens before it begin no program any more. -/
inductive Offends (text : String) (line col : Nat) (c : Char) : Prop where
  | character (h : Token.FirstStray (Text.lines text.toList) (line - 1) (col - 1) c)
  | token {before after : List Token} {t : Token} {rest : List Char}
      (hscan : Token.scan text = .ok (before ++ t :: after)) (hspan : t.span = ⟨line, col⟩)
      (htext : t.text.toList = c :: rest) (hbefore : BeginsProgram (before.map Token.shape))
      (hnot : ¬BeginsProgram ((before ++ [t]).map Token.shape))

/-- Whether a message names a place of a text and shows it: the line, without the white space at its
end, and a caret under the character that is wrong. -/
def ShowsPlace (text message : String) : Prop :=
  ∃ (line col : Nat) (cs : List Char) (c : Char) (detail : String),
    1 ≤ line ∧ line ≤ (Text.lines text.toList).length ∧
    (Text.lines text.toList)[line - 1]? = some cs ∧ 1 ≤ col ∧ col ≤ cs.length ∧
    cs[col - 1]? = some c ∧ Offends text line col c ∧ Inline detail ∧
    message = "[line " ++ toString line ++ ", col " ++ toString col ++ "] " ++ detail ++
      "\n    " ++ String.ofList (Text.trimEnd cs) ++ "\n" ++
      String.ofList (List.replicate (4 + col - 1) ' ') ++ "^"

theorem showsPlace_located {text detail : String} {row k : Nat} {cs : List Char} {c : Char}
    (hrow : (Text.lines text.toList)[row]? = some cs) (hc : cs[k]? = some c)
    (hoffends : Offends text (1 + row) (1 + k) c) (hdetail : Inline detail) :
    ShowsPlace text (Diagnostic.located text ((⟨1 + row, 1 + k⟩ : Span).mark ++ detail)) := by
  have hrowlt := (List.getElem?_eq_some_iff.1 hrow).1
  have hklt := (List.getElem?_eq_some_iff.1 hc).1
  refine ⟨1 + row, 1 + k, cs, c, detail, by omega, by omega, by simpa using hrow, by omega,
    by omega, by simpa using hc, hoffends, hdetail, ?_⟩
  rw [Diagnostic.located_mark hrow hdetail, Diagnostic.snippet]
  simp only [← String.append_assoc]
  rfl

theorem showsPlace_of_stray {text : String} {row k : Nat} {c : Char}
    (h : Token.FirstStray (Text.lines text.toList) row k c) :
    ShowsPlace text
      (Diagnostic.located text (ParseFault.unexpectedChar c ⟨1 + row, 1 + k⟩).message) := by
  obtain ⟨cs, hrow, hstray⟩ := h.stray
  have hoffends : Offends text (1 + row) (1 + k) c := by
    refine .character ?_
    rwa [Nat.add_sub_cancel_left, Nat.add_sub_cancel_left]
  have hmessage : (ParseFault.unexpectedChar c ⟨1 + row, 1 + k⟩).message =
      (⟨1 + row, 1 + k⟩ : Span).mark ++
        ("unexpected character: " ++ Text.quoted (String.singleton c)) :=
    String.append_assoc
  rw [hmessage]
  refine showsPlace_located hrow hstray.at_place hoffends ?_
  exact (by decide : Inline "unexpected character: ").append (inline_quoted _)

/-- The first character of a scanned token stands at its place. -/
theorem Token.exists_first_char {text : String} {ts : List Token} {t : Token}
    (hscan : scan text = .ok ts) (ht : t ∈ ts) :
    ∃ (row k : Nat) (cs : List Char) (c : Char) (rest : List Char),
      (Text.lines text.toList)[row]? = some cs ∧ t.span = ⟨1 + row, 1 + k⟩ ∧
      t.text.toList = c :: rest ∧ cs[k]? = some c := by
  obtain ⟨row, k, cs, hrow, hspan, more, hleads, _⟩ := standsIn_of_scan hscan ht
  obtain ⟨c, rest, htext, _⟩ := (isLexeme_of_scan hscan ht).exists_cons
  refine ⟨row, k, cs, c, rest, hrow, hspan, htext, ?_⟩
  have hfirst : (cs.drop k)[0]? = some c := by
    rw [← hleads, htext]
    rfl
  rwa [List.getElem?_drop, Nat.add_zero] at hfirst

theorem showsPlace_of_token {text detail : String} {before after : List Token} {t : Token}
    (hscan : Token.scan text = .ok (before ++ t :: after))
    (hbefore : BeginsProgram (before.map Token.shape))
    (hnot : ¬BeginsProgram ((before ++ [t]).map Token.shape)) (hdetail : Inline detail) :
    ShowsPlace text (Diagnostic.located text (t.span.mark ++ detail)) := by
  obtain ⟨row, k, cs, c, more, hrow, hspan, htext, hc⟩ :=
    Token.exists_first_char hscan (t := t) (by simp)
  rw [hspan]
  refine showsPlace_located hrow hc ?_ hdetail
  refine .token hscan ?_ htext hbefore hnot
  rw [hspan, Span.mk.injEq]
  omega

theorem Expr.parse_eq_error_of_scan {text : String} {fault : ParseFault}
    (h : Token.scan text = .error fault) :
    Expr.parse text = .error (Diagnostic.located text fault.message) := by
  have hread : Expr.read text = .error fault := by
    rw [Expr.read, h]
    rfl
  rw [Expr.parse, hread]

/-- Every message for a text that is no program has one line and names no place, because the tokens
end too early, or it names and shows the place of what is wrong. -/
theorem parse_error_snippet (text message : String) (h : Expr.parse text = .error message) :
    (Inline message ∧ Diagnostic.place? message.toList = none ∧ ∃ ts, Token.scan text = .ok ts ∧
      ((message = "empty program: expected expression" ∧ ts = []) ∨
        ∃ wanted, message = "Unexpected end of input: expected " ++ wanted ∧
          BeginsProgram (ts.map Token.shape))) ∨
    ShowsPlace text message := by
  cases hscan : Token.scan text with
  | error fault =>
    obtain ⟨_, hok, _⟩ | ⟨row, k, c, hfirst, hfault⟩ :=
      Token.scanLines_outcome 1 (Text.lines text.toList)
    · rw [Token.scan, hok] at hscan
      cases hscan
    · rw [Expr.parse_eq_error_of_scan hfault, Except.error.injEq] at h
      rw [← h]
      exact .inr (showsPlace_of_stray hfirst)
  | ok ts =>
    have hinline : ∀ t ∈ ts, Inline t.text := fun t ht => (Token.isLexeme_of_scan hscan ht).inline
    have hnot : ts.map Token.shape ∉ Programs := by
      intro hmem
      obtain ⟨e, he⟩ := Parser.exists_program_iff.2 (mem_programs_iff.1 hmem).1
      rw [(Expr.parse_eq_ok_iff hscan).2 he] at h
      cases h
    by_cases hne : ts = []
    · subst hne
      have hplace : Diagnostic.place? (ParseFault.emptyProgram.message).toList = none := by
        decide +kernel
      rw [Expr.parse_eq_error hscan rfl, Diagnostic.located_eq_self text hplace,
        Except.error.injEq] at h
      subst h
      exact .inl ⟨by decide, hplace, [], rfl, .inl ⟨rfl, rfl⟩⟩
    · obtain ⟨fault, hprogram, hblame⟩ := exists_blame hscan hnot hne
      obtain ⟨detail, hdetail, hmessage⟩ := Parser.exists_detail hinline hprogram
      rw [Expr.parse_eq_error hscan hprogram, Except.error.injEq] at h
      subst h
      obtain ⟨wanted, rfl, hplace, hbegins⟩ | ⟨before, t, after, rfl, hspan, hbefore, hnot'⟩ :=
        hblame
      · rw [Diagnostic.located_eq_self text hplace]
        refine .inl ⟨?_, hplace, ts, rfl, .inr ⟨wanted, rfl, hbegins⟩⟩
        rw [hmessage]
        exact (by decide : Inline "").append hdetail
      · -- the detail is known from the fault, the token from the language, and both have one span
        rw [hmessage, hspan]
        exact .inr (showsPlace_of_token hscan hbefore hnot' hdetail)

/-- A keyword that is objected to on a line that a Unicode separator starts and blanks end. -/
theorem parse_error_snippet_separated :
    ∃ message, Expr.parse "empty\u2028 In \t" = .error message ∧
      message = "[line 2, col 2] unexpected token 'In'\n     In\n     ^" ∧
      ((Inline message ∧ Diagnostic.place? message.toList = none ∧
        ∃ ts, Token.scan "empty\u2028 In \t" = .ok ts ∧
          ((message = "empty program: expected expression" ∧ ts = []) ∨
            ∃ wanted, message = "Unexpected end of input: expected " ++ wanted ∧
              BeginsProgram (ts.map Token.shape))) ∨
        ShowsPlace "empty\u2028 In \t" message) := by
  have h : Expr.parse "empty\u2028 In \t" =
      .error "[line 2, col 2] unexpected token 'In'\n     In\n     ^" := by
    decide +kernel
  exact ⟨_, h, rfl, parse_error_snippet _ _ h⟩

end Planar
