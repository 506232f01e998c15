import Planar.Proofs.Source.Languages
import Planar.Proofs.Source.Layout
import Planar.Proofs.Source.Listing

/-!
# The line and the listing of an expression

An expression is written on one line or as a listing, in which every binding on the outer spine has
a line of its own. Both fail in the same way, because the listing writes the parts of the line in
the same order, and both are the same tokens, because a margin and a line break only take the place
of a blank.

* `Token.Writes` — a text is tokens of given shapes, whatever comes after it that cannot go on with
  the last;
* `exists_writes_formatNumber`, `Value.exists_writes`, `Expr.exists_writes` — what is printed is
  tokens;
* `Expr.programLines_cases` — the lines of a listing are printed exactly if the one line is;
* `Expr.exists_lines` — and they are tokens of the same shapes;
* `printers_agree` — the two printers fail alike, and what they print is the same program.
-/

namespace Planar

open Token (Breaks Reads markKind?)

/-! ## Texts that stand before others -/

namespace Token

/-- Whether a text is tokens of the given shapes in front of any text that cannot go on with the
last one. -/
def Writes (cs : List Char) (shapes : List (TokenKind × String)) : Prop :=
  ∀ rest more, Breaks rest → Reads rest more → Reads (cs ++ rest) (shapes ++ more)

namespace Writes

variable {c : Char} {cs cs' : List Char} {kind : TokenKind}
  {shapes shapes' : List (TokenKind × String)}

theorem nil : Writes [] [] := fun _ _ _ h => h

theorem reads (h : Writes cs shapes) : Reads cs shapes := by
  have hend := h [] [] Breaks.nil Reads.nil
  rwa [List.append_nil, List.append_nil] at hend

theorem gap (hc : c = ' ' ∨ c = '\t') (h : Writes cs shapes) : Writes (c :: cs) shapes :=
  fun rest more hrest hmore => .gap hc (h rest more hrest hmore)

theorem mark (hc : markKind? c = some kind) (h : Writes cs shapes) :
    Writes (c :: cs) ((kind, String.singleton c) :: shapes) :=
  fun rest more hrest hmore => .mark hc (h rest more hrest hmore)

theorem lexeme {word : String} (hword : IsLexeme kind word) (hbreaks : Breaks cs)
    (h : Writes cs shapes) : Writes (word.toList ++ cs) ((kind, word) :: shapes) := by
  intro rest more hrest hmore
  rw [List.append_assoc]
  exact .lexeme hword (hbreaks.append hrest) (h rest more hrest hmore)

theorem append (h : Writes cs shapes) (h' : Writes cs' shapes') (hbreaks : Breaks cs') :
    Writes (cs ++ cs') (shapes ++ shapes') := by
  intro rest more hrest hmore
  rw [List.append_assoc, List.append_assoc]
  exact h _ _ (hbreaks.append hrest) (h' rest more hrest hmore)

theorem single {word : String} (hword : IsLexeme kind word) :
    Writes word.toList [(kind, word)] := by
  have h := lexeme hword Breaks.nil nil
  rwa [List.append_nil] at h

theorem append_gap (h : Writes cs shapes) (h' : Writes cs' shapes') :
    Writes (cs ++ ' ' :: cs') (shapes ++ shapes') :=
  h.append (gap (.inl rfl) h') (Breaks.gap rfl cs')

theorem append_mark (h : Writes cs shapes) (hc : markKind? c = some kind)
    (h' : Writes cs' shapes') :
    Writes (cs ++ c :: cs') (shapes ++ (kind, String.singleton c) :: shapes') :=
  h.append (mark hc h') (Breaks.mark hc cs')

/-- What stands in a list, before the next member. -/
theorem comma (h : Writes cs shapes) (h' : Writes cs' shapes') :
    Writes (cs ++ ',' :: ' ' :: cs') (shapes ++ (.comma, String.singleton ',') :: shapes') :=
  h.append_mark rfl (.gap (.inl rfl) h')

/-- A word with something between parentheses. -/
theorem call {word : String} (hword : IsName word) (h : Writes cs shapes) :
    Writes (word.toList ++ '(' :: (cs ++ [')'])) ((.name, word) ::
      (.leftParen, String.singleton '(') :: (shapes ++ [(.rightParen, String.singleton ')')])) :=
  .lexeme (.name hword) (Breaks.mark rfl _) (.mark rfl (h.append_mark rfl .nil))

end Writes

end Token

open Token (Writes)

/-! ## What is printed -/

/-- A printed number is a numeral, after a dash if it is negative. -/
theorem exists_writes_formatNumber {x : Float} {text : String} (h : formatNumber x = .ok text) :
    ∃ shapes, Writes text.toList shapes := by
  cases hx : Double.ofFloat x with
  | nan => simp [formatNumber, numberText?, hx, Double.sourceChars?] at h
  | infinite negative => simp [formatNumber, numberText?, hx, Double.sourceChars?] at h
  | finite negative m q =>
    obtain ⟨n, hn, htext, _⟩ := exists_numeral_of_ofFloat hx
    have hnumber : Writes n.chars [(.number, String.ofList n.chars)] := by
      have hsingle := Writes.single (IsLexeme.number hn)
      rwa [String.toList_ofList] at hsingle
    rw [formatNumber, htext] at h
    cases h
    rw [String.toList_ofList, signed]
    split
    · exact ⟨_, .mark rfl hnumber⟩
    · exact ⟨_, hnumber⟩

theorem exists_writes_of_mapM {xs : List Float} {texts : List String}
    (h : xs.mapM formatNumber = .ok texts) :
    ∀ text ∈ texts, ∃ shapes, Writes text.toList shapes := by
  induction xs generalizing texts with
  | nil =>
    cases h
    intro text htext
    cases htext
  | cons x xs ih =>
    rw [List.mapM_cons] at h
    obtain ⟨first, hfirst, h⟩ := exists_of_bind_eq_ok h
    obtain ⟨others, hothers, h⟩ := exists_of_bind_eq_ok h
    cases h
    exact List.forall_mem_cons.2 ⟨exists_writes_formatNumber hfirst, ih hothers⟩

theorem exists_writes_intercalate {texts : List String}
    (h : ∀ text ∈ texts, ∃ shapes, Writes text.toList shapes) :
    ∃ shapes, Writes (", ".intercalate texts).toList shapes := by
  induction texts with
  | nil => exact ⟨[], .nil⟩
  | cons text texts ih =>
    obtain ⟨⟨first, hfirst⟩, h⟩ := List.forall_mem_cons.1 h
    cases texts with
    | nil =>
      rw [String.intercalate_singleton]
      exact ⟨first, hfirst⟩
    | cons next texts =>
      obtain ⟨others, hothers⟩ := ih h
      have htext : (", ".intercalate (text :: next :: texts)).toList =
          text.toList ++ ',' :: ' ' :: (", ".intercalate (next :: texts)).toList := by
        rw [String.intercalate_cons_cons]
        simp
      rw [htext]
      exact ⟨_, hfirst.comma hothers⟩

theorem Value.isName_kind {v : Value Float} {xs : List Float} (h : v.coordinates = .ok xs) :
    IsName v.kind := by
  cases v with
  | empty => exact Keyword.isName_text .empty
  | point => exact Keyword.isName_text .point
  | line => exact Keyword.isName_text .line
  | vertical => exact Keyword.isName_text .vline
  | segment => exact Keyword.isName_text .segment
  | placeholder => cases h

/-- A printed value is tokens. -/
theorem Value.exists_writes {v : Value Float} {text : String} (h : v.format = .ok text) :
    ∃ shapes, Writes text.toList shapes := by
  obtain ⟨xs, hxs, h⟩ := exists_of_bind_eq_ok h
  have hkind := Value.isName_kind hxs
  by_cases hempty : xs.isEmpty
  · rw [if_pos hempty] at h
    cases h
    exact ⟨_, .single (.name hkind)⟩
  · rw [if_neg hempty] at h
    obtain ⟨texts, htexts, h⟩ := exists_of_bind_eq_ok h
    cases h
    obtain ⟨shapes, hshapes⟩ := exists_writes_intercalate (exists_writes_of_mapM htexts)
    have htext : (v.kind ++ "(" ++ ", ".intercalate texts ++ ")").toList =
        v.kind.toList ++ '(' :: ((", ".intercalate texts).toList ++ [')']) := by
      simp
    rw [htext]
    exact ⟨_, .call hkind hshapes⟩

namespace Expr

/-- The names in an expression, bound or not. -/
def names {α : Type} : Expr α → List String
  | literal _ _ => []
  | var name _ => [name]
  | intersect a b _ => a.names ++ b.names
  | bind name a b _ => name :: (a.names ++ b.names)
  | shift _ _ a _ => a.names
  | placeholder => []

/-- A binding up to its body, on the line or in the listing. -/
theorem writes_binding {name bound : String} {shapes : List (TokenKind × String)}
    (hname : IsName name) (hbound : Writes bound.toList shapes) :
    Writes ("let " ++ name ++ " = " ++ bound ++ " in").toList ((.name, "let") :: (.name, name) ::
      (.equal, "=") :: (shapes ++ [(.name, "in")])) := by
  have htext : ("let " ++ name ++ " = " ++ bound ++ " in").toList =
      "let".toList ++ ' ' :: (name.toList ++ ' ' :: '=' :: ' ' ::
        (bound.toList ++ ' ' :: "in".toList)) := by
    simp
  rw [htext]
  refine .lexeme (.name (Keyword.isName_text .let)) (Breaks.gap rfl _) (.gap (.inl rfl) ?_)
  refine .lexeme (.name hname) (Breaks.gap rfl _) (.gap (.inl rfl) ?_)
  refine .mark rfl (.gap (.inl rfl) ?_)
  exact hbound.append_gap (.single (.name (Keyword.isName_text .in)))

theorem toList_binding (name bound body : String) :
    ("let " ++ name ++ " = " ++ bound ++ " in " ++ body).toList =
      ("let " ++ name ++ " = " ++ bound ++ " in").toList ++ ' ' :: body.toList := by
  simp

/-- An expression whose names are names is printed as tokens. -/
theorem exists_writes {e : Expr Float} {text : String} (hnames : ∀ name ∈ e.names, IsName name)
    (h : e.line = .ok text) : ∃ shapes, Writes text.toList shapes := by
  induction e generalizing text with
  | literal v span => exact Value.exists_writes h
  | var name span =>
    cases h
    exact ⟨_, .single (.name (hnames name (by simp [names])))⟩
  | intersect a b span iha ihb =>
    rw [names, List.forall_mem_append] at hnames
    obtain ⟨first, hfirst, h⟩ := exists_of_bind_eq_ok h
    obtain ⟨second, hsecond, h⟩ := exists_of_bind_eq_ok h
    cases h
    obtain ⟨s, hs⟩ := iha hnames.1 hfirst
    obtain ⟨s', hs'⟩ := ihb hnames.2 hsecond
    have htext : ("intersect(" ++ first ++ ", " ++ second ++ ")").toList =
        "intersect".toList ++ '(' :: ((first.toList ++ ',' :: ' ' :: second.toList) ++ [')']) := by
      simp
    rw [htext]
    exact ⟨_, .call (Keyword.isName_text .intersect) (hs.comma hs')⟩
  | bind name a b span iha ihb =>
    rw [names, List.forall_mem_cons, List.forall_mem_append] at hnames
    obtain ⟨hname, ha, hb⟩ := hnames
    obtain ⟨bound, hbound, h⟩ := exists_of_bind_eq_ok h
    obtain ⟨body, hbody, h⟩ := exists_of_bind_eq_ok h
    cases h
    obtain ⟨s, hs⟩ := iha ha hbound
    obtain ⟨s', hs'⟩ := ihb hb hbody
    rw [toList_binding]
    exact ⟨_, (writes_binding hname hs).append_gap hs'⟩
  | shift dx dy a span ih =>
    obtain ⟨x, hx, h⟩ := exists_of_bind_eq_ok h
    obtain ⟨y, hy, h⟩ := exists_of_bind_eq_ok h
    obtain ⟨body, hbody, h⟩ := exists_of_bind_eq_ok h
    cases h
    obtain ⟨sx, hsx⟩ := exists_writes_formatNumber hx
    obtain ⟨sy, hsy⟩ := exists_writes_formatNumber hy
    obtain ⟨s, hs⟩ := ih hnames hbody
    have htext : ("shift(" ++ x ++ ", " ++ y ++ ", " ++ body ++ ")").toList =
        "shift".toList ++ '(' :: ((x.toList ++ ',' :: ' ' :: (y.toList ++ ',' :: ' ' ::
          body.toList)) ++ [')']) := by
      simp
    rw [htext]
    exact ⟨_, .call (Keyword.isName_text .shift) (hsx.comma (hsy.comma hs))⟩
  | placeholder => cases h

/-! ## Listings -/

/-- The lines of a listing are printed exactly if the one line is, and they fail alike. -/
theorem programLines_cases (e : Expr Float) (indent margin : String) :
    (∃ text ls, e.line = .ok text ∧ e.programLines indent margin = .ok ls) ∨
      ∃ fault, e.line = .error fault ∧ e.programLines indent margin = .error fault := by
  -- only the body of a binding goes on to further lines, under a wider margin
  induction e generalizing margin with
  | bind name a b span _ ihb =>
    rw [line, programLines]
    cases line a with
    | error fault => exact .inr ⟨fault, rfl, rfl⟩
    | ok bound =>
      obtain ⟨body, ls, hbody, hls⟩ | ⟨fault, hbody, hls⟩ := ihb (margin ++ indent)
      · rw [hbody, hls]
        exact .inl ⟨_, _, rfl, rfl⟩
      · rw [hbody, hls]
        exact .inr ⟨fault, rfl, rfl⟩
  | _ =>
    rw [programLines]
    · cases line _ with
      | error fault => exact .inr ⟨fault, rfl, rfl⟩
      | ok text => exact .inl ⟨text, _, rfl, rfl⟩
    · intro _ _ _ _ heq
      cases heq

/-- The two printers fail alike. -/
theorem program_eq_error_iff (e : Expr Float) (indent : String) (fault : Fault) :
    e.program indent = .error fault ↔ e.line = .error fault := by
  rw [program]
  obtain ⟨text, ls, hline, hls⟩ | ⟨fault', hline, hls⟩ := e.programLines_cases indent ""
  · rw [hline, hls]
    refine iff_of_false ?_ ?_
    · intro h
      cases h
    · intro h
      cases h
  · rw [hline, hls]
    exact Iff.rfl

end Expr

/-- Whether a text consists of spaces and tabs. -/
def IsIndent (text : String) : Prop := ∀ c ∈ text.toList, c = ' ' ∨ c = '\t'

instance (text : String) : Decidable (IsIndent text) :=
  decidable_of_iff (text.toList.all fun c => c == ' ' || c == '\t') (by simp [IsIndent])

theorem IsIndent.append {margin indent : String} (h : IsIndent margin) (h' : IsIndent indent) :
    IsIndent (margin ++ indent) := by
  intro c hc
  rw [String.toList_append, List.mem_append] at hc
  rcases hc with hc | hc
  · exact h c hc
  · exact h' c hc

theorem IsIndent.isFiller {margin : String} (h : IsIndent margin) : IsFiller margin.toList := by
  unfold IsIndent at h
  generalize margin.toList = blanks at h
  induction blanks with
  | nil => exact .nil
  | cons c cs ih =>
    obtain ⟨hc, hcs⟩ := List.forall_mem_cons.1 h
    exact .blank hc (ih hcs)

namespace Expr

/-- A line of a listing is tokens, and so are the lines after it. -/
theorem reads_line (ls : List String) {margin text : String}
    {shapes more : List (TokenKind × String)} (hmargin : IsIndent margin)
    (htext : Writes text.toList shapes) (h : Reads (ls.flatMap fun l => l.toList ++ ['\n']) more) :
    Reads (((margin ++ text) :: ls).flatMap fun l => l.toList ++ ['\n']) (shapes ++ more) := by
  have hlines : ((margin ++ text) :: ls).flatMap (fun l => l.toList ++ ['\n']) =
      margin.toList ++ (text.toList ++ '\n' :: ls.flatMap fun l => l.toList ++ ['\n']) := by
    simp
  rw [hlines]
  refine hmargin.isFiller.reads (htext _ _ ?_ (.line_break rfl h))
  exact Breaks.line_break rfl _

/-- The one line and the lines of a listing are tokens of the same shapes. -/
theorem exists_lines {e : Expr Float} {indent margin text : String}
    (hnames : ∀ name ∈ e.names, IsName name) (hindent : IsIndent indent)
    (hmargin : IsIndent margin) (h : e.line = .ok text) :
    ∃ ls shapes, e.programLines indent margin = .ok ls ∧ ls ≠ [] ∧ Writes text.toList shapes ∧
      Reads (ls.flatMap fun l => l.toList ++ ['\n']) shapes := by
  -- the line goes on with a blank where the listing goes on with a line break and a margin
  induction e generalizing margin text with
  | bind name a b span _ ihb =>
    rw [names, List.forall_mem_cons, List.forall_mem_append] at hnames
    obtain ⟨hname, ha, hb⟩ := hnames
    obtain ⟨bound, hbound, h⟩ := exists_of_bind_eq_ok h
    obtain ⟨body, hbody, h⟩ := exists_of_bind_eq_ok h
    cases h
    obtain ⟨s, hs⟩ := exists_writes ha hbound
    obtain ⟨ls, s', hls, _, hs', hreads⟩ := ihb hb (hmargin.append hindent) hbody
    have hbinding := writes_binding hname hs
    refine ⟨(margin ++ ("let " ++ name ++ " = " ++ bound ++ " in")) :: ls, _, ?_,
      List.cons_ne_nil _ _, ?_, reads_line ls hmargin hbinding hreads⟩
    · rw [programLines, hbound, hls]
      simp only [String.append_assoc]
      rfl
    · rw [toList_binding]
      exact hbinding.append_gap hs'
  | placeholder => cases h
  | _ =>
    obtain ⟨s, hs⟩ := exists_writes hnames h
    have hreads := reads_line [] hmargin hs .nil
    rw [List.append_nil] at hreads
    refine ⟨[margin ++ text], s, ?_, List.cons_ne_nil _ _, hs, hreads⟩
    rw [programLines, h]
    · rfl
    · intro _ _ _ _ heq
      cases heq

end Expr

/-- The two printers fail alike. Where all names have the shape of names, what they print is scanned
as tokens of the same shapes and is the same program, or is refused with the same words. -/
theorem printers_agree (e : Expr Float) (indent : String) (hindent : IsIndent indent) :
    (∀ fault, e.program indent = .error fault ↔ e.line = .error fault) ∧
      ∀ text listing, e.line = .ok text → e.program indent = .ok listing →
        (∀ name ∈ e.names, IsName name) →
        (∃ ts ts', Token.scan text = .ok ts ∧ Token.scan listing = .ok ts' ∧
          ts.map Token.shape = ts'.map Token.shape) ∧ SameParse text listing := by
  refine ⟨e.program_eq_error_iff indent, ?_⟩
  intro text listing htext hlisting hnames
  obtain ⟨ls, shapes, hls, hne, hwrites, hreads⟩ :=
    Expr.exists_lines hnames hindent (show IsIndent "" by decide) htext
  rw [Expr.program, hls] at hlisting
  cases hlisting
  rw [← toList_intercalate_feed hne] at hreads
  obtain ⟨ts, hscan, hshapes⟩ := hwrites.reads.exists_scan
  obtain ⟨ts', hscan', hshapes'⟩ := hreads.exists_scan
  have hsame := hshapes.trans hshapes'.symm
  exact ⟨⟨ts, ts', hscan, hscan', hsame⟩, sameParse_of_shapes hscan hscan' hsame⟩

/-- A binding of a keyword, and one of a name that looks like the end of a numeral. -/
def Expr.misnamed : Expr Float :=
  .bind "in" (.literal (.vertical ⟨-0.5⟩) none)
    (.bind "e1" (.var "in" none)
      (.intersect (.var "e1" none) (.literal .empty none) none) none) none

theorem printers_agree_misnamed :
    IsIndent "\t" ∧ (∀ name ∈ Expr.misnamed.names, IsName name) ∧
      (∀ fault, Expr.misnamed.program "\t" = .error fault ↔ Expr.misnamed.line = .error fault) ∧
      ∃ text listing, Expr.misnamed.line = .ok text ∧ Expr.misnamed.program "\t" = .ok listing ∧
        text = "let in = vline(-0.5) in let e1 = in in intersect(e1, empty)" ∧
        listing = "let in = vline(-0.5) in\n\tlet e1 = in in\n\t\tintersect(e1, empty)\n" ∧
        (∃ ts ts', Token.scan text = .ok ts ∧ Token.scan listing = .ok ts' ∧
          ts.map Token.shape = ts'.map Token.shape) ∧ SameParse text listing := by
  have hline : Expr.misnamed.line =
      .ok "let in = vline(-0.5) in let e1 = in in intersect(e1, empty)" := by
    decide +kernel
  have hlisting : Expr.misnamed.program "\t" =
      .ok "let in = vline(-0.5) in\n\tlet e1 = in in\n\t\tintersect(e1, empty)\n" := by
    decide +kernel
  have hnames : ∀ name ∈ Expr.misnamed.names, IsName name := by
    have hin : IsName "in" := Keyword.isName_text .in
    have he : IsName "e1" := ⟨'e', ['1'], rfl, by decide, List.forall_mem_singleton.2 (by decide)⟩
    show ∀ name ∈ ["in", "e1", "in", "e1"], IsName name
    simp only [List.forall_mem_cons]
    exact ⟨hin, he, hin, he, List.forall_mem_nil _⟩
  obtain ⟨hfaults, hsame⟩ := printers_agree Expr.misnamed "\t" (by decide)
  exact ⟨by decide, hnames, hfaults, _, _, hline, hlisting, rfl, rfl,
    hsame _ _ hline hlisting hnames⟩

end Planar
