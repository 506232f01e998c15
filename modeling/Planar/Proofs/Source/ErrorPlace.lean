import Planar.Proofs.Source.Languages

/-!
# Where syntax errors stand

A row of tokens that is no program is refused at the first token with which it cannot be part of
one any more. If there is no such token, the row ends too early.

* `Blames` — a fault is blamed on the right token, or on the end of the row;
* `Judged` — a step of the parser takes a member of a language, or its fault is blamed right;
* `Judged.bind` — a sequence of steps is judged by the product of their languages;
* `Parser.judged_expr` — the parser is judged by the language of expressions;
* `parse_error_place` — the message for a text that is no program names the first token at which
  the text cannot become one.
-/

namespace Planar

open Grammar

/-! ## Faults and their places -/

/-- Where a fault is, unless it is the end of the tokens. -/
def ParseFault.span? : ParseFault → Option Span
  | unexpectedChar _ span | expected _ _ span | expectedKeyword _ _ span | outOfRange _ span
  | reserved _ span | unexpectedKeyword _ span | trailing _ span => some span
  | emptyProgram | endOfInput _ => none

/-- The message of a fault starts with its place. -/
theorem ParseFault.message_eq_mark {fault : ParseFault} {span : Span}
    (h : fault.span? = some span) : ∃ detail, fault.message = span.mark ++ detail := by
  have self (a more : String) : ∃ detail, a ++ more = a ++ detail := ⟨more, rfl⟩
  have append {a b : String} (more : String) (hab : ∃ detail, a = b ++ detail) :
      ∃ detail, a ++ more = b ++ detail := by
    obtain ⟨detail, rfl⟩ := hab
    exact ⟨detail ++ more, String.append_assoc⟩
  cases fault with
  | emptyProgram => cases h
  | endOfInput wanted => cases h
  | unexpectedChar c => cases h; exact append _ (self _ _)
  | expected wanted got => cases h; exact append _ (append _ (append _ (self _ _)))
  | expectedKeyword k got => cases h; exact append _ (append _ (append _ (append _ (self _ _))))
  | outOfRange numeral => cases h; exact append _ (append _ (self _ _))
  | reserved word => cases h; exact append _ (append _ (self _ _))
  | unexpectedKeyword word => cases h; exact append _ (append _ (self _ _))
  | trailing word => cases h; exact append _ (self _ _)

namespace Diagnostic

variable {message : String}

/-- Showing the place of a message only adds to the message. -/
theorem located_eq_append (text message : String) :
    ∃ more, located text message = message ++ more := by
  have self : ∃ more, message = message ++ more := ⟨"", String.append_empty.symm⟩
  unfold located
  split
  · split
    · simp only [shown, String.append_assoc]
      exact ⟨_, rfl⟩
    · exact self
  · exact self

/-- Nothing is added to a message that names no place. -/
theorem located_eq_self (text : String) (h : place? message.toList = none) :
    located text message = message := by
  have hnamed : named? message = none := by
    rw [named?, h, ite_self]
  rw [located, hnamed]

end Diagnostic

/-- Whether a row can be completed to a member of a language. -/
def Viable (P : Language TokenShape) (u : List TokenShape) : Prop :=
  ∃ more : List TokenShape, more ≠ [] ∧ (∀ s ∈ more, IsLexeme s.1 s.2) ∧ u ++ more ∈ P

/-- Whether no member of a language is a prefix of a row or starts with it. -/
def Clashes (P : Language TokenShape) (u : List TokenShape) : Prop :=
  ∀ w ∈ P, ∀ r r' : List TokenShape, u ++ r ≠ w ++ r'

/-- Whether a fault is blamed right, for a row in which a member of a language should stand: on the
end if the row can be completed, and else on the first token after which it cannot. -/
inductive Blames (P : Language TokenShape) (ts : List Token) : ParseFault → Prop where
  | atEnd {wanted : String} (h : Viable P (ts.map Token.shape))
      (hplace : Diagnostic.place? (ParseFault.message (.endOfInput wanted)).toList = none) :
      Blames P ts (.endOfInput wanted)
  | atToken (before after : List Token) {t : Token} {fault : ParseFault}
      (hspan : fault.span? = some t.span) (hts : ts = before ++ t :: after)
      (hviable : Viable P (before.map Token.shape))
      (hclashes : Clashes P (before.map Token.shape ++ [t.shape])) : Blames P ts fault

/-- Whether a step on a row takes a member of a language, or its fault is blamed right. -/
def Judged {β : Type} {us : List Token} (P : Language TokenShape) (ts : List Token) :
    Step β us → Prop
  | .ok (_, rest) => ∃ taken, ts = taken ++ rest.val ∧ taken.map Token.shape ∈ P
  | .error fault => Blames P ts fault

section Judged

variable {β γ : Type} {us vs ts : List Token} {P Q : Language TokenShape}

theorem Viable.mul_left {u v : List TokenShape} (hu : u ∈ P) (hv : Viable Q v) :
    Viable (P * Q) (u ++ v) := by
  obtain ⟨more, hne, hlexemes, hmem⟩ := hv
  refine ⟨more, hne, hlexemes, ?_⟩
  rw [List.append_assoc]
  exact Language.append_mem_mul hu hmem

theorem Viable.mul_right {u : List TokenShape} (hu : Viable P u) (hQ : Finishable Q) :
    Viable (P * Q) u := by
  obtain ⟨more, hne, hlexemes, hmem⟩ := hu
  obtain ⟨v, hv, hlexemes'⟩ := hQ
  refine ⟨more ++ v, by simp [hne], ?_, ?_⟩
  · intro s hs
    rcases List.mem_append.1 hs with hs | hs
    · exact hlexemes s hs
    · exact hlexemes' s hs
  · rw [← List.append_assoc]
    exact Language.append_mem_mul hmem hv

theorem Clashes.mul_left {u v : List TokenShape} (hP : PrefixFree P) (hu : u ∈ P)
    (hv : Clashes Q v) : Clashes (P * Q) (u ++ v) := by
  intro w hw r r' heq
  obtain ⟨a, ha, b, hb, rfl⟩ := Language.mem_mul.1 hw
  rw [List.append_assoc, List.append_assoc] at heq
  obtain rfl := hP.eq_of_append hu ha _ _ heq
  exact hv b hb r r' (List.append_cancel_left heq)

theorem Clashes.mul_right {u : List TokenShape} (hu : Clashes P u) : Clashes (P * Q) u := by
  intro w hw r r' heq
  obtain ⟨a, ha, b, hb, rfl⟩ := Language.mem_mul.1 hw
  rw [List.append_assoc] at heq
  exact hu a ha r (b ++ r') heq

theorem judged_ok {b : β} {rest : List Token} {h : rest.length < us.length} :
    Judged 1 rest (.ok (b, ⟨rest, h⟩) : Step β us) := ⟨[], rfl, rfl⟩

/-- A sequence is judged by the product of the languages that judge its parts. -/
theorem Judged.bind {step : Step β us} {f : β × Rest us → Step γ vs} (h : Judged P ts step)
    (hP : PrefixFree P) (hQ : Finishable Q)
    (hf : ∀ b rest h, Judged Q rest (f (b, ⟨rest, h⟩))) : Judged (P * Q) ts (step >>= f) := by
  cases step with
  | error fault =>
    cases h with
    | atEnd hviable hplace => exact .atEnd (hviable.mul_right hQ) hplace
    | atToken before after hspan hts hviable hclashes =>
      exact .atToken before after hspan hts (hviable.mul_right hQ) hclashes.mul_right
  | ok p =>
    obtain ⟨b, rest, hlength⟩ := p
    obtain ⟨taken, rfl, htaken⟩ := h
    have hrest := hf b rest hlength
    show Judged (P * Q) (taken ++ rest) (f (b, ⟨rest, hlength⟩))
    cases hstep : f (b, ⟨rest, hlength⟩) with
    | error fault =>
      rw [hstep] at hrest
      cases hrest with
      | atEnd hviable hplace =>
        refine .atEnd ?_ hplace
        rw [List.map_append]
        exact hviable.mul_left htaken
      | @atToken before after t _ hspan hts hviable hclashes =>
        refine .atToken (taken ++ before) after hspan ?_ ?_ ?_
        · rw [hts, List.append_assoc]
        · rw [List.map_append]
          exact hviable.mul_left htaken
        · rw [List.map_append, List.append_assoc]
          exact hclashes.mul_left hP htaken
    | ok q =>
      obtain ⟨c, rest', hlength'⟩ := q
      rw [hstep] at hrest
      obtain ⟨taken', rfl, htaken'⟩ := hrest
      refine ⟨taken ++ taken', by rw [List.append_assoc], ?_⟩
      rw [List.map_append]
      exact Language.append_mem_mul htaken htaken'

/-- The last step of a sequence is judged by its own language. -/
theorem Judged.last {step : Step β us} {f : β × Rest us → Step γ vs} (h : Judged P ts step)
    (hP : PrefixFree P) (hf : ∀ b rest h, Judged 1 rest (f (b, ⟨rest, h⟩))) :
    Judged P ts (step >>= f) := by
  have hstep := h.bind hP .one hf
  rwa [mul_one] at hstep

/-- After a first token a row is judged by what may follow that token. -/
theorem Judged.cons {t : Token} {step : Step β us} (hnil : [] ∉ P)
    (hcons : ∀ u, t.shape :: u ∈ P ↔ u ∈ Q) (h : Judged Q ts step) : Judged P (t :: ts) step := by
  have hviable {u : List TokenShape} (hu : Viable Q u) : Viable P (t.shape :: u) := by
    obtain ⟨more, hne, hlexemes, hmem⟩ := hu
    exact ⟨more, hne, hlexemes, (hcons _).2 hmem⟩
  cases step with
  | error fault =>
    cases h with
    | atEnd hQ hplace => exact .atEnd (hviable hQ) hplace
    | @atToken before after t' _ hspan hts hQ hclashes =>
      refine .atToken (t :: before) after hspan (by rw [hts]; rfl) (hviable hQ) ?_
      intro w hw r r' heq
      cases w with
      | nil => exact hnil hw
      | cons s w =>
        obtain ⟨rfl, hrest⟩ := List.cons.inj heq
        exact hclashes w ((hcons w).1 hw) r r' hrest
  | ok p =>
    obtain ⟨b, rest, hlength⟩ := p
    obtain ⟨taken, rfl, htaken⟩ := h
    exact ⟨t :: taken, rfl, (hcons _).2 htaken⟩

/-- A language none of whose members starts with the first token may be added. -/
theorem Judged.add {t : Token} {step : Step β us} (h : Judged P (t :: ts) step)
    (hQ : Clashes Q [t.shape]) : Judged (Q + P) (t :: ts) step := by
  have hviable {u : List TokenShape} (hu : Viable P u) : Viable (Q + P) u := by
    obtain ⟨more, hne, hlexemes, hmem⟩ := hu
    exact ⟨more, hne, hlexemes, .inr hmem⟩
  cases step with
  | error fault =>
    cases h with
    | atEnd hP hplace => exact .atEnd (hviable hP) hplace
    | @atToken before after t' _ hspan hts hP hclashes =>
      refine .atToken before after hspan hts (hviable hP) ?_
      rintro w (hw | hw) r r' heq
      · cases before with
        | nil =>
          obtain ⟨rfl, rfl⟩ := List.cons.inj hts
          exact hQ w hw r r' heq
        | cons b before =>
          obtain ⟨rfl, rfl⟩ := List.cons.inj hts
          exact hQ w hw _ r' heq
      · exact hclashes w hw r r' heq
  | ok p =>
    obtain ⟨b, rest, hlength⟩ := p
    obtain ⟨taken, htaken, hmem⟩ := h
    exact ⟨taken, htaken, .inr hmem⟩

theorem Finishable.viable_nil (hP : Finishable P) (hnil : [] ∉ P) : Viable P [] := by
  obtain ⟨u, hu, hlexemes⟩ := hP
  refine ⟨u, ?_, hlexemes, hu⟩
  rintro rfl
  exact hnil hu

theorem Single.nil_notMem {sort : Token → Prop} : [] ∉ Single sort := by
  rintro ⟨m, hm⟩
  cases hm

/-- A step that takes a token of a given sort, and blames any other one, is judged by that sort. -/
theorem judged_single {sort : Token → Prop} {step : Step β us} (hsort : Placeless sort)
    (hfinishable : Finishable (Single sort))
    (hend : ts = [] → ∃ kind : TokenKind, step = .error (.endOfInput kind.text))
    (htoken : ∀ t rest, ts = t :: rest →
      (sort t ∧ ∃ b h, step = .ok (b, ⟨rest, h⟩)) ∨
        (¬sort t ∧ ∃ fault, fault.span? = some t.span ∧ step = .error fault)) :
    Judged (Single sort) ts step := by
  cases ts with
  | nil =>
    obtain ⟨kind, rfl⟩ := hend rfl
    refine .atEnd (hfinishable.viable_nil Single.nil_notMem) ?_
    cases kind <;> decide +kernel
  | cons t rest =>
    obtain ⟨ht, b, h, rfl⟩ | ⟨ht, fault, hspan, rfl⟩ := htoken t rest rfl
    · exact ⟨[t], rfl, ⟨⟨t, ht⟩, rfl⟩⟩
    · refine .atToken [] _ hspan rfl (hfinishable.viable_nil Single.nil_notMem) ?_
      rintro w ⟨m, rfl⟩ r r' heq
      have hshape : t.shape = m.token.shape := (List.cons.inj heq).1
      exact ht (hsort m.token t hshape.symm m.sort_token)

end Judged

/-! ## The parser -/

namespace Parser

variable {ts : List Token}

theorem judged_expect (kind : TokenKind) (ts : List Token) :
    Judged (Marks kind) ts (expect kind ts) := by
  refine judged_single (placeless_mark kind) (Marks.finishable kind) ?_ ?_
  · rintro rfl
    exact ⟨kind, rfl⟩
  · rintro t rest rfl
    by_cases ht : t.kind = kind
    · exact .inl ⟨ht, t, by simp, by rw [expect, if_pos ht]⟩
    · exact .inr ⟨ht, _, rfl, by rw [expect, if_neg ht]⟩

theorem judged_magnitude (ts : List Token) : Judged Magnitudes ts (magnitude ts) := by
  refine judged_single placeless_magnitude Magnitudes.finishable ?_ ?_
  · rintro rfl
    exact ⟨.number, rfl⟩
  · rintro t rest rfl
    by_cases ht : t.kind = .number
    swap
    · refine .inr ⟨fun h => ht h.1, .expected TokenKind.number.text t.kind t.span, rfl, ?_⟩
      rw [magnitude, expect, if_neg ht]
      rfl
    rw [magnitude, expect, if_pos ht]
    by_cases hfinite : (numeralValue t.text).isFinite = true
    · exact .inl ⟨⟨ht, hfinite⟩, _, by simp, if_pos hfinite⟩
    · exact .inr ⟨fun h => hfinite h.2, .outOfRange t.text t.span, rfl, if_neg hfinite⟩

theorem judged_number (ts : List Token) : Judged Numbers ts (number ts) := by
  have hnil : [] ∉ Numbers := by
    rw [Numbers.eq_add]
    rintro (⟨_, ⟨d, rfl⟩, _, _, h⟩ | ⟨m, h⟩) <;> cases h
  cases ts with
  | nil => exact .atEnd (Numbers.finishable.viable_nil hnil) (by decide +kernel)
  | cons t ts =>
    by_cases ht : t.kind = .dash
    · rw [number, if_pos ht]
      refine Judged.cons (Q := Magnitudes) hnil ?_
        ((judged_magnitude ts).last (Single.prefixFree _) fun _ _ _ => judged_ok)
      intro u
      rw [Numbers.eq_add]
      constructor
      · rintro (⟨_, ⟨d, rfl⟩, v, hv, heq⟩ | ⟨m, heq⟩)
        · obtain ⟨_, rfl⟩ := List.cons.inj heq
          exact hv
        · have hkind : m.token.kind = t.kind := congrArg Prod.fst (List.cons.inj heq).1
          rw [ht, m.sort_token.1] at hkind
          cases hkind
      · intro hu
        have hdash : [t.shape] ∈ Marks .dash := ⟨⟨t, ht⟩, rfl⟩
        exact .inl (Language.append_mem_mul hdash hu)
    · rw [number, if_neg ht, Numbers.eq_add]
      refine (judged_magnitude (t :: ts)).add ?_
      rintro _ ⟨_, ⟨d, rfl⟩, v, _, rfl⟩ r r' heq
      have hkind : t.kind = d.token.kind := congrArg Prod.fst (List.cons.inj heq).1
      exact ht (hkind.trans d.sort_token)

theorem judged_numberAfter (mark : TokenKind) (ts : List Token) :
    Judged (NumbersAfter mark) ts (numberAfter mark ts) :=
  (judged_expect mark ts).bind (Single.prefixFree _) Numbers.finishable fun _ r₁ _ =>
    (judged_number r₁).last Numbers.prefixFree fun _ _ _ => judged_ok

theorem judged_freshName (ts : List Token) : Judged Names ts (freshName ts) := by
  refine judged_single placeless_name Names.finishable ?_ ?_
  · rintro rfl
    exact ⟨.name, rfl⟩
  · rintro t rest rfl
    by_cases ht : t.kind = .name
    swap
    · refine .inr ⟨fun h => ht h.1, .expected TokenKind.name.text t.kind t.span, rfl, ?_⟩
      rw [freshName, expect, if_neg ht]
      rfl
    rw [freshName, expect, if_pos ht]
    cases hk : Keyword.ofWord? t.text with
    | none =>
      exact .inl ⟨⟨ht, Keyword.ofWord?_eq_none_iff.1 hk⟩, t.text, by simp, if_neg (by simp [hk])⟩
    | some k =>
      exact .inr ⟨fun h => h.2 k (Keyword.ofWord?_eq_some_iff.1 hk), .reserved t.text t.span, rfl,
        if_pos (by simp [hk])⟩

theorem judged_keyword (k : Keyword) (ts : List Token) : Judged (Words k) ts (keyword k ts) := by
  refine judged_single (placeless_word k) (Words.finishable k) ?_ ?_
  · rintro rfl
    exact ⟨.name, rfl⟩
  · rintro t rest rfl
    by_cases ht : t.kind = .name
    swap
    · refine .inr ⟨fun h => ht h.1, .expected TokenKind.name.text t.kind t.span, rfl, ?_⟩
      rw [keyword, expect, if_neg ht]
      rfl
    rw [keyword, expect, if_pos ht]
    by_cases hk : Keyword.ofWord? t.text = some k
    · exact .inl ⟨⟨ht, Keyword.ofWord?_eq_some_iff.1 hk⟩, (), by simp, if_pos hk⟩
    · exact .inr ⟨fun h => hk (Keyword.ofWord?_eq_some_iff.2 h.2), .expectedKeyword k t.text t.span,
        rfl, if_neg hk⟩

/-- A fault at the first token is blamed right if no expression starts with that token. -/
theorem judged_refused {t : Token} {ts us : List Token} {fault : ParseFault}
    (hspan : fault.span? = some t.span) (hnone : ∀ u, t.shape :: u ∉ Expressions) :
    Judged Expressions (t :: ts) (.error fault : Step (Expr Float) us) := by
  refine .atToken [] _ hspan rfl (Expressions.finishable.viable_nil Expressions.nil_notMem) ?_
  intro w hw r r' heq
  cases w with
  | nil => exact Expressions.nil_notMem hw
  | cons s w =>
    obtain ⟨rfl, _⟩ := List.cons.inj heq
    exact hnone w hw

/-- The parser takes an expression, or blames the first token after which there is none. -/
theorem judged_expr (ts : List Token) : Judged Expressions ts (expr ts) := by
  -- every recursive call is on a shorter row
  induction hn : ts.length using Nat.strong_induction_on generalizing ts with
  | _ n ih =>
  cases ts with
  | nil =>
    rw [expr]
    exact .atEnd (Expressions.finishable.viable_nil Expressions.nil_notMem) (by decide +kernel)
  | cons t ts =>
  rw [expr]
  by_cases hname : t.kind = .name
  swap
  · rw [if_neg hname]
    exact judged_refused rfl fun u hu => hname (Expressions.cons_mem.1 hu).1
  rw [if_pos hname]
  have hcons (u : List TokenShape) :
      t.shape :: u ∈ Expressions ↔ u ∈ Continuations (Keyword.ofWord? t.text) :=
    Expressions.cons_mem.trans (and_iff_right hname)
  have shorter {us : List Token} (h : us.length < ts.length) : Judged Expressions us (expr us) :=
    ih us.length (by rw [← hn, List.length_cons]; omega) us rfl
  -- every piece of a production ends where it does in any longer row, and what comes after it can
  -- be finished
  have fmark := Marks.finishable
  have fafter := NumbersAfter.finishable
  have fexpr := Expressions.finishable
  have pmark {kind : TokenKind} : PrefixFree (Marks kind) := Single.prefixFree _
  have pafter {kind : TokenKind} : PrefixFree (NumbersAfter kind) := NumbersAfter.prefixFree kind
  have pexpr := Expressions.prefixFree
  cases hk : Keyword.ofWord? t.text with
  | none =>
    rw [hk] at hcons
    exact .cons Expressions.nil_notMem hcons judged_ok
  | some k =>
  rw [hk] at hcons
  cases k with
  | empty => exact .cons Expressions.nil_notMem hcons judged_ok
  | point =>
    refine .cons Expressions.nil_notMem hcons ?_
    refine (judged_numberAfter .leftParen ts).bind pafter ((fafter _).mul (fmark _))
      fun _ r₁ _ => ?_
    refine (judged_numberAfter .comma r₁).bind pafter (fmark _) fun _ r₂ _ => ?_
    exact (judged_expect .rightParen r₂).last pmark fun _ _ _ => judged_ok
  | line =>
    refine .cons Expressions.nil_notMem hcons ?_
    refine (judged_numberAfter .leftParen ts).bind pafter ((fafter _).mul (fmark _))
      fun _ r₁ _ => ?_
    refine (judged_numberAfter .comma r₁).bind pafter (fmark _) fun _ r₂ _ => ?_
    exact (judged_expect .rightParen r₂).last pmark fun _ _ _ => judged_ok
  | vline =>
    refine .cons Expressions.nil_notMem hcons ?_
    refine (judged_numberAfter .leftParen ts).bind pafter (fmark _) fun _ r₁ _ => ?_
    exact (judged_expect .rightParen r₁).last pmark fun _ _ _ => judged_ok
  | segment =>
    refine .cons Expressions.nil_notMem hcons ?_
    refine (judged_numberAfter .leftParen ts).bind pafter
      ((fafter _).mul ((fafter _).mul ((fafter _).mul (fmark _)))) fun _ r₁ _ => ?_
    refine (judged_numberAfter .comma r₁).bind pafter
      ((fafter _).mul ((fafter _).mul (fmark _))) fun _ r₂ _ => ?_
    refine (judged_numberAfter .comma r₂).bind pafter ((fafter _).mul (fmark _)) fun _ r₃ _ => ?_
    refine (judged_numberAfter .comma r₃).bind pafter (fmark _) fun _ r₄ _ => ?_
    exact (judged_expect .rightParen r₄).last pmark fun _ _ _ => judged_ok
  | intersect =>
    refine .cons Expressions.nil_notMem hcons ?_
    refine (judged_expect .leftParen ts).bind pmark
      (fexpr.mul ((fmark _).mul (fexpr.mul (fmark _)))) fun _ r₁ h₁ => ?_
    refine (shorter h₁).bind pexpr ((fmark _).mul (fexpr.mul (fmark _))) fun _ r₂ h₂ => ?_
    refine (judged_expect .comma r₂).bind pmark (fexpr.mul (fmark _)) fun _ r₃ h₃ => ?_
    refine (shorter (by omega)).bind pexpr (fmark _) fun _ r₄ _ => ?_
    exact (judged_expect .rightParen r₄).last pmark fun _ _ _ => judged_ok
  | shift =>
    refine .cons Expressions.nil_notMem hcons ?_
    refine (judged_numberAfter .leftParen ts).bind pafter
      ((fafter _).mul ((fmark _).mul (fexpr.mul (fmark _)))) fun _ r₁ h₁ => ?_
    refine (judged_numberAfter .comma r₁).bind pafter ((fmark _).mul (fexpr.mul (fmark _)))
      fun _ r₂ h₂ => ?_
    refine (judged_expect .comma r₂).bind pmark (fexpr.mul (fmark _)) fun _ r₃ h₃ => ?_
    refine (shorter (by omega)).bind pexpr (fmark _) fun _ r₄ _ => ?_
    exact (judged_expect .rightParen r₄).last pmark fun _ _ _ => judged_ok
  | «let» =>
    refine .cons Expressions.nil_notMem hcons ?_
    refine (judged_freshName ts).bind (Single.prefixFree _)
      ((fmark _).mul (fexpr.mul ((Words.finishable _).mul fexpr))) fun _ r₁ h₁ => ?_
    refine (judged_expect .equal r₁).bind pmark (fexpr.mul ((Words.finishable _).mul fexpr))
      fun _ r₂ h₂ => ?_
    refine (shorter (by omega)).bind pexpr ((Words.finishable _).mul fexpr) fun _ r₃ h₃ => ?_
    refine (judged_keyword .in r₃).bind (Single.prefixFree _) fexpr fun _ r₄ h₄ => ?_
    exact (shorter (by omega)).last pexpr fun _ _ _ => judged_ok
  | «in» => exact judged_refused rfl fun u hu => Language.notMem_zero u ((hcons u).1 hu)

end Parser

/-! ## Programs -/

/-- The rows of tokens, without their places, of the texts that are programs. -/
def Programs : Language TokenShape :=
  {u | ∃ text ts e, Token.scan text = .ok ts ∧ Expr.parse text = .ok e ∧ ts.map Token.shape = u}

/-- Whether a row is a prefix of that of some program. -/
def BeginsProgram (u : List TokenShape) : Prop := ∃ w ∈ Programs, u <+: w

theorem BeginsProgram.shorter {u v : List TokenShape} (h : BeginsProgram v) (hle : u <+: v) :
    BeginsProgram u := by
  obtain ⟨w, hw, hv⟩ := h
  exact ⟨w, hw, hle.trans hv⟩

namespace Parser

variable {ts : List Token} {fault : ParseFault}

/-- The fault of a row that is not empty stands at the end if the row can be completed, and else at
the first token after which it cannot. -/
theorem blames_program (hne : ts ≠ []) (h : program ts = .error fault) :
    (∃ wanted, fault = .endOfInput wanted ∧
      Diagnostic.place? (ParseFault.message (.endOfInput wanted)).toList = none ∧
      Viable Expressions (ts.map Token.shape)) ∨
    ∃ before t after, ts = before ++ t :: after ∧ fault.span? = some t.span ∧
      (before.map Token.shape ∈ Expressions ∨ Viable Expressions (before.map Token.shape)) ∧
      ∀ u, before.map Token.shape ++ t.shape :: u ∉ Expressions := by
  have hjudged := judged_expr ts
  rw [program, if_neg (by simpa using hne)] at h
  cases hexpr : expr ts with
  | error fault' =>
    rw [hexpr] at h hjudged
    cases h
    cases hjudged with
    | atEnd hviable hplace => exact .inl ⟨_, rfl, hplace, hviable⟩
    | @atToken before after t _ hspan hts hviable hclashes =>
      refine .inr ⟨before, t, after, hts, hspan, .inr hviable, ?_⟩
      intro u hu
      exact hclashes _ hu u [] (by simp)
  | ok p =>
    obtain ⟨e, rest, hlength⟩ := p
    rw [hexpr] at h hjudged
    obtain ⟨taken, hts, htaken⟩ := hjudged
    cases rest with
    | nil => cases h
    | cons t after =>
      cases h
      refine .inr ⟨taken, t, after, hts, rfl, .inl htaken, ?_⟩
      intro u hu
      have heq := Expressions.prefixFree.eq_of_append htaken hu (t.shape :: u) []
        (by simp)
      simp at heq

/-- A row of tokens is a program exactly if its shapes are an expression. -/
theorem exists_program_iff : (∃ e, program ts = .ok e) ↔ ts.map Token.shape ∈ Expressions := by
  constructor
  · rintro ⟨e, he⟩
    obtain ⟨d, rfl, _⟩ := program_eq_ok_iff.1 he
    exact ⟨d, rfl⟩
  · intro hmem
    have hne : ts ≠ [] := by
      rintro rfl
      exact Expressions.nil_notMem hmem
    cases hprogram : program ts with
    | ok e => exact ⟨e, rfl⟩
    | error fault =>
      obtain ⟨_, _, _, more, hmore, _, hlonger⟩ | ⟨before, t, after, rfl, _, _, hnone⟩ :=
        blames_program hne hprogram
      · have heq := Expressions.prefixFree.eq_of_append hmem hlonger more []
          (by simp)
        exact absurd (by simpa using heq) hmore
      · rw [List.map_append] at hmem
        exact absurd hmem (hnone _)

end Parser

/-- The rows of programs are the expressions that can be written. -/
theorem mem_programs_iff {u : List TokenShape} :
    u ∈ Programs ↔ u ∈ Expressions ∧ ∀ s ∈ u, IsLexeme s.1 s.2 := by
  constructor
  · rintro ⟨text, ts, e, hscan, he, rfl⟩
    rw [Expr.parse_eq_ok_iff hscan] at he
    refine ⟨Parser.exists_program_iff.1 ⟨e, he⟩, ?_⟩
    intro s hs
    obtain ⟨t, ht, rfl⟩ := List.mem_map.1 hs
    exact Token.isLexeme_of_scan hscan ht
  · rintro ⟨hmem, hlexemes⟩
    obtain ⟨text, ts, hscan, rfl⟩ := Token.exists_scan u hlexemes
    obtain ⟨e, he⟩ := Parser.exists_program_iff.2 hmem
    exact ⟨text, ts, e, hscan, (Expr.parse_eq_ok_iff hscan).2 he, rfl⟩

/-- What can be completed to an expression begins a program. -/
theorem Viable.beginsProgram {u : List TokenShape} (hu : ∀ s ∈ u, IsLexeme s.1 s.2)
    (h : Viable Expressions u) : BeginsProgram u := by
  obtain ⟨more, _, hmore, hmem⟩ := h
  refine ⟨u ++ more, mem_programs_iff.2 ⟨hmem, ?_⟩, List.prefix_append u more⟩
  intro s hs
  rcases List.mem_append.1 hs with hs | hs
  · exact hu s hs
  · exact hmore s hs

theorem Programs.eq_of_begins {u v : List TokenShape} (hu : u ∈ Programs) (hv : v ∈ Programs)
    (h : u <+: v) : u = v := by
  obtain ⟨more, rfl⟩ := h
  exact Expressions.prefixFree.eq_of_append (mem_programs_iff.1 hu).1 (mem_programs_iff.1 hv).1
    more [] (by simp)

theorem Expr.parse_eq_error {text : String} {ts : List Token} {fault : ParseFault}
    (hscan : Token.scan text = .ok ts) (h : Parser.program ts = .error fault) :
    Expr.parse text = .error (Diagnostic.located text fault.message) := by
  have hread : Expr.read text = .error fault := by
    rw [Expr.read, hscan]
    exact h
  rw [Expr.parse, hread]

/-- What is blamed for a text that is no program: the end of its tokens if they begin a program, and
else the first token with which they do not. -/
theorem exists_blame {text : String} {ts : List Token} (hscan : Token.scan text = .ok ts)
    (hnot : ts.map Token.shape ∉ Programs) (hne : ts ≠ []) :
    ∃ fault, Parser.program ts = .error fault ∧
      ((∃ wanted, fault = .endOfInput wanted ∧
        Diagnostic.place? (ParseFault.message (.endOfInput wanted)).toList = none ∧
        BeginsProgram (ts.map Token.shape)) ∨
      ∃ before t after, ts = before ++ t :: after ∧ fault.span? = some t.span ∧
        BeginsProgram (before.map Token.shape) ∧
        ¬BeginsProgram ((before ++ [t]).map Token.shape)) := by
  have hlexemes : ∀ s ∈ ts.map Token.shape, IsLexeme s.1 s.2 := by
    intro s hs
    obtain ⟨t, ht, rfl⟩ := List.mem_map.1 hs
    exact Token.isLexeme_of_scan hscan ht
  cases hprogram : Parser.program ts with
  | ok e => exact absurd ⟨text, ts, e, hscan, (Expr.parse_eq_ok_iff hscan).2 hprogram, rfl⟩ hnot
  | error fault =>
    refine ⟨fault, rfl, ?_⟩
    obtain ⟨wanted, hfault, hplace, hviable⟩ | ⟨before, t, after, hts, hspan, hbefore, hnone⟩ :=
      Parser.blames_program hne hprogram
    · exact .inl ⟨wanted, hfault, hplace, hviable.beginsProgram hlexemes⟩
    · refine .inr ⟨before, t, after, hts, hspan, ?_, ?_⟩
      · have hlexemes' : ∀ s ∈ before.map Token.shape, IsLexeme s.1 s.2 := by
          intro s hs
          exact hlexemes s (by rw [hts, List.map_append]; exact List.mem_append_left _ hs)
        rcases hbefore with hmem | hviable
        · exact ⟨_, mem_programs_iff.2 ⟨hmem, hlexemes'⟩, List.prefix_rfl⟩
        · exact hviable.beginsProgram hlexemes'
      · rintro ⟨_, hw, u, rfl⟩
        refine hnone u ?_
        simpa using (mem_programs_iff.1 hw).1

/-- A text with tokens that is no program has an error at the end if the tokens begin a program, and
else at the first token with which they do not. No program begins another one. -/
theorem parse_error_place (text : String) (ts : List Token) (hscan : Token.scan text = .ok ts)
    (hnot : ts.map Token.shape ∉ Programs) :
    (ts = [] → Expr.parse text = .error "empty program: expected expression") ∧
      (ts ≠ [] → BeginsProgram (ts.map Token.shape) →
        ∃ wanted, Expr.parse text = .error ("Unexpected end of input: expected " ++ wanted) ∧
          Diagnostic.place? ("Unexpected end of input: expected " ++ wanted).toList = none) ∧
      (¬BeginsProgram (ts.map Token.shape) →
        ∃ k, ∃ h : k < ts.length,
          IsLeast {j | ¬BeginsProgram ((ts.take (j + 1)).map Token.shape)} k ∧
          ∃ detail, Expr.parse text = .error ((ts.get ⟨k, h⟩).span.mark ++ detail)) ∧
      ∀ u ∈ Programs, ∀ v ∈ Programs, u <+: v → u = v := by
  refine ⟨?_, ?_, ?_, fun u hu v hv => Programs.eq_of_begins hu hv⟩
  · rintro rfl
    rw [Expr.parse_eq_error hscan rfl, Diagnostic.located_eq_self text (by decide +kernel)]
    rfl
  · intro hne hbegins
    obtain ⟨fault, hprogram, ⟨wanted, rfl, hplace, _⟩ | ⟨before, t, after, rfl, _, _, hnot'⟩⟩ :=
      exists_blame hscan hnot hne
    · refine ⟨wanted, ?_, hplace⟩
      rw [Expr.parse_eq_error hscan hprogram, Diagnostic.located_eq_self text hplace]
      rfl
    · refine absurd (hbegins.shorter ?_) hnot'
      exact List.IsPrefix.map Token.shape ⟨after, by simp⟩
  · intro hbegins
    have hne : ts ≠ [] := by
      rintro rfl
      exact hbegins
        ((Expressions.finishable.viable_nil Expressions.nil_notMem).beginsProgram nofun)
    obtain ⟨fault, hprogram,
      ⟨_, _, _, hbegins'⟩ | ⟨before, t, after, rfl, hspan, hbefore, hnot'⟩⟩ :=
      exists_blame hscan hnot hne
    · exact absurd hbegins' hbegins
    · have hlength : before.length < (before ++ t :: after).length := by simp
      refine ⟨before.length, hlength, ⟨?_, ?_⟩, ?_⟩
      · show ¬BeginsProgram (((before ++ t :: after).take (before.length + 1)).map Token.shape)
        rwa [List.take_length_add_append, List.take_succ_cons, List.take_zero]
      · intro j hj
        by_contra hlt
        refine hj (hbefore.shorter (List.IsPrefix.map Token.shape ?_))
        rw [List.take_append_of_le_length (by omega)]
        exact List.take_prefix _ _
      · obtain ⟨detail, hdetail⟩ := ParseFault.message_eq_mark hspan
        obtain ⟨more, hmore⟩ := Diagnostic.located_eq_append text fault.message
        refine ⟨detail ++ more, ?_⟩
        rw [Expr.parse_eq_error hscan hprogram, hmore, hdetail, String.append_assoc]
        simp

/-- The tokens of an intersection whose second part is a keyword that starts no expression. -/
def Token.misplacedKeyword : List Token :=
  [⟨.name, "intersect", ⟨1, 1⟩⟩, ⟨.leftParen, "(", ⟨1, 10⟩⟩, ⟨.name, "a", ⟨1, 11⟩⟩,
    ⟨.comma, ",", ⟨1, 12⟩⟩, ⟨.name, "In", ⟨2, 3⟩⟩, ⟨.rightParen, ")", ⟨2, 5⟩⟩]

theorem parse_error_place_misplacedKeyword :
    Token.scan "intersect(a,\n  In)" = .ok Token.misplacedKeyword ∧
      Token.misplacedKeyword.map Token.shape ∉ Programs ∧
      (Token.misplacedKeyword = [] →
        Expr.parse "intersect(a,\n  In)" = .error "empty program: expected expression") ∧
      (Token.misplacedKeyword ≠ [] → BeginsProgram (Token.misplacedKeyword.map Token.shape) →
        ∃ wanted,
          Expr.parse "intersect(a,\n  In)" =
            .error ("Unexpected end of input: expected " ++ wanted) ∧
          Diagnostic.place? ("Unexpected end of input: expected " ++ wanted).toList = none) ∧
      (¬BeginsProgram (Token.misplacedKeyword.map Token.shape) →
        ∃ k, ∃ h : k < Token.misplacedKeyword.length,
          IsLeast {j | ¬BeginsProgram ((Token.misplacedKeyword.take (j + 1)).map Token.shape)} k ∧
          ∃ detail, Expr.parse "intersect(a,\n  In)" =
            .error ((Token.misplacedKeyword.get ⟨k, h⟩).span.mark ++ detail)) ∧
      ∀ u ∈ Programs, ∀ v ∈ Programs, u <+: v → u = v := by
  have hscan : Token.scan "intersect(a,\n  In)" = .ok Token.misplacedKeyword := by
    cbv
  have hprogram : Parser.program Token.misplacedKeyword =
      .error (.unexpectedKeyword "In" ⟨2, 3⟩) := by
    cbv
  have hnot : Token.misplacedKeyword.map Token.shape ∉ Programs := by
    intro hmem
    obtain ⟨e, he⟩ := Parser.exists_program_iff.2 (mem_programs_iff.1 hmem).1
    rw [hprogram] at he
    cases he
  exact ⟨hscan, hnot, parse_error_place _ _ hscan hnot⟩

end Planar
