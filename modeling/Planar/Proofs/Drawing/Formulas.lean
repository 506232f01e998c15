import Planar.Proofs.Drawing.Labels

/-!
# Labels with formulas

A label of plain text and formulas keeps its formulas and has its plain text escaped. The words of
the escaped characters are told apart by how they begin, so escaped text can be read back.

* `prefixFree_escapeChar` — no character is written as the beginning of another one;
* `readText`, `leftInverse_readText` — reading escaped text back;
* `Mixed` — labels of plain text and formulas in turn;
* `escape_mixed` — how such a label is written, and that labels without formulas are written
  differently if they are different.
-/

namespace Planar.Markup

variable {opened : Option Delimiter} {c : Char} {cs rest : List Char}

/-! ## Reading escaped text -/

/-- The characters that have a word of their own. -/
def specials : List Char := ['\\', '&', '%', '#', '_', '\x7b', '\x7d', '~', '^']

theorem escapeChar_of_not_mem (h : c ∉ specials) : escapeChar c = [c] := by
  unfold escapeChar
  split
  case h_10 => rfl
  all_goals exact absurd (by decide) h

theorem head?_escapeChar (h : c ∈ specials) : (escapeChar c).head? = some '\\' := by
  have hall : specials.all (fun c => (escapeChar c).head? == some '\\') = true := by decide
  exact eq_of_beq (List.all_eq_true.1 hall c h)

/-- No character is written as the beginning of another one. -/
theorem prefixFree_escapeChar {c' : Char} (h : escapeChar c <+: escapeChar c') : c = c' := by
  have hwords : specials.all (fun c => specials.all fun c' =>
      !(escapeChar c).isPrefixOf (escapeChar c') || c == c') = true := by decide
  have hbackslash : '\\' ∈ specials := List.mem_cons_self
  -- a beginning that is not empty has the same first character
  have hhead : (escapeChar c).head? = (escapeChar c').head? := by
    obtain ⟨rest, hrest⟩ := h
    rw [← hrest, List.head?_append_of_ne_nil _ (escapeChar_ne_nil c)]
  by_cases hc : c ∈ specials <;> by_cases hc' : c' ∈ specials
  · have hpair := List.all_eq_true.1 (List.all_eq_true.1 hwords c hc) c' hc'
    rw [List.isPrefixOf_iff_prefix.2 h] at hpair
    exact eq_of_beq hpair
  · rw [head?_escapeChar hc, escapeChar_of_not_mem hc'] at hhead
    exact absurd (Option.some.inj hhead ▸ hbackslash) hc'
  · rw [head?_escapeChar hc', escapeChar_of_not_mem hc] at hhead
    exact absurd (Option.some.inj hhead ▸ hbackslash) hc
  · rw [escapeChar_of_not_mem hc, escapeChar_of_not_mem hc'] at hhead
    exact Option.some.inj hhead

/-- The plain text that is written as a text: wherever the word of a character stands, it is read as
that character. -/
def readText : List Char → List Char
  | [] => []
  | c :: cs =>
    match specials.find? fun s => (escapeChar s).isPrefixOf (c :: cs) with
    | some s => s :: readText (cs.drop ((escapeChar s).length - 1))
    | none => c :: readText cs
termination_by cs => cs.length
decreasing_by
  · simp only [List.length_drop, List.length_cons]; omega
  · simp

theorem readText_escapeChar_append (c : Char) (cs : List Char) :
    readText (escapeChar c ++ cs) = c :: readText cs := by
  obtain ⟨first, more, hword⟩ := List.exists_cons_of_ne_nil (escapeChar_ne_nil c)
  have hfound (s : Char) (hs : (escapeChar s).isPrefixOf (escapeChar c ++ cs) = true) : s = c := by
    rw [List.isPrefixOf_iff_prefix] at hs
    rcases List.prefix_or_prefix_of_prefix hs (List.prefix_append _ _) with hprefix | hprefix
    · exact prefixFree_escapeChar hprefix
    · exact (prefixFree_escapeChar hprefix).symm
  have hself : (escapeChar c).isPrefixOf (escapeChar c ++ cs) = true :=
    List.isPrefixOf_iff_prefix.2 (List.prefix_append _ _)
  rw [hword, List.cons_append] at hfound hself
  rw [hword, List.cons_append, readText]
  split
  · next s hs =>
    have hprefix := List.find?_some hs
    obtain rfl := hfound s hprefix
    rw [hword, List.length_cons, Nat.add_sub_cancel, List.drop_left]
  · next hnone =>
    have hc : c ∉ specials := fun hmem => List.find?_eq_none.1 hnone c hmem (hword ▸ hself)
    rw [escapeChar_of_not_mem hc] at hword
    cases hword
    rfl

/-- Escaped text can be read back. -/
theorem leftInverse_readText : Function.LeftInverse readText escapeText := by
  intro cs
  induction cs with
  | nil => rw [escapeText, List.flatMap_nil, readText]
  | cons c cs ih =>
    rw [escapeText] at ih ⊢
    rw [List.flatMap_cons, readText_escapeChar_append, ih]

/-- A label without dollar signs is all plain text. -/
theorem escape_of_not_mem {s : String} (h : '$' ∉ s.toList) :
    escape s = String.ofList (escapeText s.toList) := by
  have hwritten : escapeFrom none false (s.toList ++ []) =
      escapeText s.toList ++ escapeFrom none (endsAfterBackslash false s.toList) [] :=
    escapeFrom_append h []
  rw [List.append_nil, escapeFrom_nil, List.append_nil] at hwritten
  rw [escape, hwritten]

/-! ## Labels with formulas -/

/-- Text that has no dollar sign and ends in no backslash. What comes after it stands as at the
start of a label. -/
structure IsPlain (cs : List Char) : Prop where
  no_sign : '$' ∉ cs
  no_backslash : cs.getLast? ≠ some '\\'

namespace IsPlain

theorem ends_eq_false (h : IsPlain cs) : endsAfterBackslash false cs = false := by
  have hlast := h.no_backslash
  unfold endsAfterBackslash
  cases hcs : cs.getLast? with
  | none => rfl
  | some c =>
    rw [hcs] at hlast
    simpa using hlast

theorem escapeFrom_append (h : IsPlain cs) (rest : List Char) :
    escapeFrom opened false (cs ++ rest) = writeText opened cs ++ escapeFrom opened false rest := by
  rw [Markup.escapeFrom_append h.no_sign, h.ends_eq_false]

theorem head?_append_ne (h : IsPlain cs) (hrest : cs = [] → rest.head? ≠ some '$') :
    (cs ++ rest).head? ≠ some '$' := by
  cases cs with
  | nil => exact hrest rfl
  | cons c cs =>
    intro hhead
    exact h.no_sign (List.mem_cons.2 (.inl (Option.some.inj hhead).symm))

end IsPlain

/-- Mathematics between two equal delimiters. -/
structure Formula where
  delimiter : Delimiter
  body : List Char
  plain : IsPlain body
  nonempty : body ≠ []

/-- The text of a formula. -/
def Formula.chars (f : Formula) : List Char := f.delimiter.chars ++ (f.body ++ f.delimiter.chars)

/-- A label of plain text and formulas in turn. Plain text comes first and after each formula, and
only the first and the last one may be empty. -/
structure Mixed where
  first : List Char
  rest : List (Formula × List Char)
  plain_first : IsPlain first
  plain_rest : ∀ p ∈ rest, IsPlain p.2
  apart : ∀ p ∈ rest.dropLast, p.2 ≠ []

/-- The text of such a label with its plain text written by `write`. -/
def Mixed.chars (write : List Char → List Char) (s : Mixed) : List Char :=
  write s.first ++ s.rest.flatMap fun p => p.1.chars ++ write p.2

/-- A formula is copied. -/
theorem Formula.escapeFrom_append (f : Formula) (hrest : rest.head? ≠ some '$') :
    escapeFrom none false (f.chars ++ rest) = f.chars ++ escapeFrom none false rest := by
  obtain ⟨d, body, hplain, hnonempty⟩ := f
  have hbody : (body ++ (d.chars ++ rest)).head? ≠ some '$' :=
    hplain.head?_append_ne fun hnil => absurd hnil hnonempty
  have hopens : delimiter? false (d.chars ++ (body ++ (d.chars ++ rest))) =
      some (d, body ++ (d.chars ++ rest)) :=
    delimiter?_eq_some_iff.2 ⟨rfl, rfl, fun _ => hbody⟩
  have hcloses : delimiter? false (d.chars ++ rest) = some (d, rest) :=
    delimiter?_eq_some_iff.2 ⟨rfl, rfl, fun _ => hrest⟩
  have hclosed : toggle (toggle none d) d = none := if_pos rfl
  rw [Formula.chars, List.append_assoc, List.append_assoc, escapeFrom_of_some hopens,
    hplain.escapeFrom_append, escapeFrom_of_some hcloses, hclosed, List.append_assoc,
    List.append_assoc]
  rfl

/-- Formulas are copied, and the plain text after them is escaped. -/
theorem escapeFrom_formulas {ps : List (Formula × List Char)} (hplain : ∀ p ∈ ps, IsPlain p.2)
    (hapart : ∀ p ∈ ps.dropLast, p.2 ≠ []) :
    escapeFrom none false (ps.flatMap fun p => p.1.chars ++ p.2) =
      ps.flatMap fun p => p.1.chars ++ escapeText p.2 := by
  induction ps with
  | nil => exact escapeFrom_nil
  | cons p ps ih =>
    obtain ⟨hp, hps⟩ := List.forall_mem_cons.1 hplain
    have hrest : p.2 = [] → (ps.flatMap fun p => p.1.chars ++ p.2).head? ≠ some '$' := by
      -- only the last plain text may be empty
      intro hnil
      cases ps with
      | nil => nofun
      | cons q ps => exact absurd hnil (hapart p List.mem_cons_self)
    have hapart' : ∀ q ∈ ps.dropLast, q.2 ≠ [] := by
      intro q hq
      cases ps with
      | nil => cases hq
      | cons q' ps => exact hapart q (List.mem_cons_of_mem p hq)
    rw [List.flatMap_cons, List.flatMap_cons, List.append_assoc,
      p.1.escapeFrom_append (hp.head?_append_ne hrest), hp.escapeFrom_append, ih hps hapart',
      List.append_assoc]
    rfl

/-- In a label of plain text and formulas the formulas are kept and the plain text is escaped
character by character. Escaped text can be read back, so no two labels without formulas are
written the same. -/
theorem escape_mixed (s : Mixed) :
    escape (String.ofList (s.chars id)) = String.ofList (s.chars escapeText) ∧
      Function.LeftInverse readText escapeText ∧ Set.InjOn escape {s | '$' ∉ s.toList} := by
  refine ⟨?_, leftInverse_readText, ?_⟩
  · have hrest := escapeFrom_formulas s.plain_rest s.apart
    rw [escape, String.toList_ofList, Mixed.chars, Mixed.chars, id, s.plain_first.escapeFrom_append]
    exact congrArg (fun cs => String.ofList (escapeText s.first ++ cs)) hrest
  · intro s hs t ht heq
    rw [escape_of_not_mem hs, escape_of_not_mem ht] at heq
    exact String.toList_injective (leftInverse_readText.injective (String.ofList_injective heq))

/-- One formula of each kind, and two labels that are only told apart by their backslash. -/
theorem escape_mixed_formulas :
    escape "a_b & $x_1$ or $$y^2$$" = "a\\_b \\& $x_1$ or $$y^2$$" ∧
      readText (escapeText ['\\', '~']) = ['\\', '~'] ∧ escape "\\&" ≠ escape "&" := by
  have hbody : IsPlain ['x', '_', '1'] := ⟨by decide, by decide⟩
  have hdisplay : IsPlain ['y', '^', '2'] := ⟨by decide, by decide⟩
  have hfirst : IsPlain ['a', '_', 'b', ' ', '&', ' '] := ⟨by decide, by decide⟩
  have hbetween : IsPlain [' ', 'o', 'r', ' '] := ⟨by decide, by decide⟩
  have hlast : IsPlain [] := ⟨by decide, by decide⟩
  obtain ⟨hescape, hread, hinjective⟩ := escape_mixed
    ⟨['a', '_', 'b', ' ', '&', ' '],
      [(⟨.single, ['x', '_', '1'], hbody, by decide⟩, [' ', 'o', 'r', ' ']),
        (⟨.double, ['y', '^', '2'], hdisplay, by decide⟩, [])],
      hfirst, by simp [hbetween, hlast], by simp⟩
  exact ⟨hescape, hread _, hinjective.ne (by decide) (by decide) (by decide)⟩

end Planar.Markup
