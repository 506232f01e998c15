import Planar.Proofs.Source.Lexemes

/-!
# Parsing by shapes

The parser looks at the kinds and the texts of tokens and copies their places. On two rows of the
same shapes it takes equal expressions, up to places, or it objects in the same way to tokens that
stand at the same point of both rows.

* `Objection` — what a token can be blamed for;
* `SameFault` — two faults with the same objection, or two at the end of the rows;
* `Parallel`, `Parallel.bind` — steps on two rows that go the same way;
* `Parser.parallel_expr` — the parser goes the same way on rows of the same shapes;
* `Parser.program_cases` — so do programs.
-/

namespace Planar

/-- An expression without its places. -/
def Expr.unplaced {α : Type} : Expr α → Expr α
  | literal v _ => .literal v none
  | var name _ => .var name none
  | intersect a b _ => .intersect a.unplaced b.unplaced none
  | bind name a b _ => .bind name a.unplaced b.unplaced none
  | shift dx dy a _ => .shift dx dy a.unplaced none
  | placeholder => .placeholder

/-! ## Objections -/

/-- The word for what the parser wants: a token of some kind, or an expression. -/
def wantedText : Option TokenKind → String
  | some kind => kind.text
  | none => "expression"

/-- What a token can be blamed for where it stands. -/
inductive Objection where
  | expected (wanted : Option TokenKind)
  | expectedKeyword (k : Keyword)
  | outOfRange
  | reserved
  | unexpectedKeyword
  | trailing

/-- The fault of a token. -/
def Objection.fault (t : Token) : Objection → ParseFault
  | expected wanted => .expected (wantedText wanted) t.kind t.span
  | expectedKeyword k => .expectedKeyword k t.text t.span
  | outOfRange => .outOfRange t.text t.span
  | reserved => .reserved t.text t.span
  | unexpectedKeyword => .unexpectedKeyword t.text t.span
  | trailing => .trailing t.text t.span

/-- Two faults on two rows: there are no tokens, the rows end too early, or tokens of one shape have
the same fault. -/
inductive SameFault (ts us : List Token) : ParseFault → ParseFault → Prop where
  | noTokens : SameFault ts us .emptyProgram .emptyProgram
  | atEnd (wanted : Option TokenKind) :
      SameFault ts us (.endOfInput (wantedText wanted)) (.endOfInput (wantedText wanted))
  | atToken (objection : Objection) {t u : Token} (ht : t ∈ ts) (hu : u ∈ us)
      (hshape : t.shape = u.shape) : SameFault ts us (objection.fault t) (objection.fault u)

theorem SameFault.mono {ts us ts' us' : List Token} {fault fault' : ParseFault}
    (h : SameFault ts us fault fault') (hts : ts ⊆ ts') (hus : us ⊆ us') :
    SameFault ts' us' fault fault' := by
  cases h with
  | noTokens => exact .noTokens
  | atEnd wanted => exact .atEnd wanted
  | atToken objection ht hu hshape => exact .atToken objection (hts ht) (hus hu) hshape

/-! ## Steps on two rows -/

/-- Steps on two rows that go the same way: both take something and leave rows of the same shapes,
or both have the same fault. -/
def Parallel {β : Type} {ts' us' : List Token} (R : β → β → Prop) (ts us : List Token) :
    Step β ts' → Step β us' → Prop
  | .ok (b, r), .ok (c, s) =>
    R b c ∧ r.val ⊆ ts ∧ s.val ⊆ us ∧ r.val.map Token.shape = s.val.map Token.shape
  | .error fault, .error fault' => SameFault ts us fault fault'
  | _, _ => False

section Parallel

variable {β γ : Type} {R : β → β → Prop} {Q : γ → γ → Prop} {ts us ts₁ us₁ ts₂ us₂ : List Token}

theorem parallel_ok {b c : β} {ht : ts.length < ts₁.length} {hu : us.length < us₁.length}
    (hR : R b c) (hshapes : ts.map Token.shape = us.map Token.shape) :
    Parallel R ts us (.ok (b, ⟨ts, ht⟩) : Step β ts₁) (.ok (c, ⟨us, hu⟩) : Step β us₁) :=
  ⟨hR, List.Subset.refl ts, List.Subset.refl us, hshapes⟩

theorem Parallel.mono {step : Step β ts₁} {step' : Step β us₁} (h : Parallel R ts us step step')
    (hts : ts ⊆ ts₂) (hus : us ⊆ us₂) : Parallel R ts₂ us₂ step step' := by
  cases step with
  | error fault =>
    cases step' with
    | error fault' => exact SameFault.mono h hts hus
    | ok p => exact absurd h id
  | ok p =>
    cases step' with
    | error fault' => exact absurd h id
    | ok p' =>
      obtain ⟨hR, hr, hs, hshapes⟩ := h
      exact ⟨hR, List.Subset.trans hr hts, List.Subset.trans hs hus, hshapes⟩

theorem Parallel.cons {t u : Token} {step : Step β ts₁} {step' : Step β us₁}
    (h : Parallel R ts us step step') : Parallel R (t :: ts) (u :: us) step step' :=
  h.mono (List.subset_cons_self t ts) (List.subset_cons_self u us)

/-- Sequences go the same way if their parts do. -/
theorem Parallel.bind {step : Step β ts₁} {step' : Step β us₁} {f : β × Rest ts₁ → Step γ ts₂}
    {f' : β × Rest us₁ → Step γ us₂} (h : Parallel R ts us step step')
    (hf : ∀ b c r s hr hs, R b c → r.map Token.shape = s.map Token.shape →
      Parallel Q r s (f (b, ⟨r, hr⟩)) (f' (c, ⟨s, hs⟩))) :
    Parallel Q ts us (step >>= f) (step' >>= f') := by
  cases step with
  | error fault =>
    cases step' with
    | error fault' => exact h
    | ok p => exact absurd h id
  | ok p =>
    cases step' with
    | error fault' => exact absurd h id
    | ok p' =>
      obtain ⟨b, r, hr⟩ := p
      obtain ⟨c, s, hs⟩ := p'
      obtain ⟨hR, hrts, hsus, hshapes⟩ := h
      exact (hf b c r s hr hs hR hshapes).mono hrts hsus

/-- Steps that take one token go the same way if they do so on tokens of one shape and at the
end. -/
theorem parallel_single {step : Step β ts} {step' : Step β us}
    (hshapes : ts.map Token.shape = us.map Token.shape)
    (hend : ts = [] → us = [] → ∃ wanted, step = .error (.endOfInput (wantedText wanted)) ∧
      step' = .error (.endOfInput (wantedText wanted)))
    (htoken : ∀ t u rest rest', t.shape = u.shape → ts = t :: rest → us = u :: rest' →
      (∃ b c h h', R b c ∧ step = .ok (b, ⟨rest, h⟩) ∧ step' = .ok (c, ⟨rest', h'⟩)) ∨
        ∃ objection : Objection, step = .error (objection.fault t) ∧
          step' = .error (objection.fault u)) :
    Parallel R ts us step step' := by
  cases ts with
  | nil =>
    obtain rfl : us = [] := List.map_eq_nil_iff.1 hshapes.symm
    obtain ⟨wanted, rfl, rfl⟩ := hend rfl rfl
    exact .atEnd wanted
  | cons t rest =>
    cases us with
    | nil => cases hshapes
    | cons u rest' =>
      obtain ⟨hshape, hrest⟩ := List.cons.inj hshapes
      obtain ⟨b, c, h, h', hR, rfl, rfl⟩ | ⟨objection, rfl, rfl⟩ :=
        htoken t u rest rest' hshape rfl rfl
      · exact ⟨hR, List.subset_cons_self t rest, List.subset_cons_self u rest', hrest⟩
      · exact .atToken objection List.mem_cons_self List.mem_cons_self hshape

end Parallel

/-! ## The parser -/

namespace Parser

variable {ts us : List Token}

theorem parallel_expect (kind : TokenKind) (h : ts.map Token.shape = us.map Token.shape) :
    Parallel (fun _ _ => True) ts us (expect kind ts) (expect kind us) := by
  refine parallel_single h ?_ ?_
  · rintro rfl rfl
    exact ⟨some kind, rfl, rfl⟩
  · rintro t u rest rest' hshape rfl rfl
    have hkind : t.kind = u.kind := congrArg Prod.fst hshape
    by_cases ht : t.kind = kind
    · refine .inl ⟨t, u, by simp, by simp, trivial, ?_, ?_⟩
      · rw [expect, if_pos ht]
      · rw [expect, if_pos (hkind ▸ ht)]
    · refine .inr ⟨.expected (some kind), ?_, ?_⟩
      · rw [expect, if_neg ht]
        rfl
      · rw [expect, if_neg (hkind ▸ ht)]
        rfl

theorem parallel_magnitude (h : ts.map Token.shape = us.map Token.shape) :
    Parallel Eq ts us (magnitude ts) (magnitude us) := by
  refine parallel_single h ?_ ?_
  · rintro rfl rfl
    exact ⟨some .number, rfl, rfl⟩
  · rintro ⟨kind, text, span⟩ ⟨_, _, span'⟩ rest rest' ⟨⟩ rfl rfl
    by_cases ht : kind = .number
    swap
    · refine .inr ⟨.expected (some .number), ?_, ?_⟩ <;>
      · rw [magnitude, expect, if_neg ht]
        rfl
    by_cases hfinite : (numeralValue text).isFinite = true
    · refine .inl ⟨numeralValue text, numeralValue text, by simp, by simp, rfl, ?_, ?_⟩ <;>
      · rw [magnitude, expect, if_pos ht]
        exact if_pos hfinite
    · refine .inr ⟨.outOfRange, ?_, ?_⟩ <;>
      · rw [magnitude, expect, if_pos ht]
        exact if_neg hfinite

theorem parallel_number (h : ts.map Token.shape = us.map Token.shape) :
    Parallel Eq ts us (number ts) (number us) := by
  cases ts with
  | nil =>
    obtain rfl : us = [] := List.map_eq_nil_iff.1 h.symm
    exact parallel_magnitude rfl
  | cons t ts =>
    cases us with
    | nil => cases h
    | cons u us =>
      obtain ⟨hshape, hrest⟩ := List.cons.inj h
      have hkind : t.kind = u.kind := congrArg Prod.fst hshape
      by_cases ht : t.kind = .dash
      · rw [number, if_pos ht, number, if_pos (hkind ▸ ht)]
        refine .cons ?_
        refine (parallel_magnitude hrest).bind ?_
        rintro x _ r s _ _ rfl hshapes
        exact parallel_ok rfl hshapes
      · rw [number, if_neg ht, number, if_neg (hkind ▸ ht)]
        exact parallel_magnitude h

theorem parallel_numberAfter (mark : TokenKind) (h : ts.map Token.shape = us.map Token.shape) :
    Parallel Eq ts us (numberAfter mark ts) (numberAfter mark us) := by
  refine (parallel_expect mark h).bind ?_
  intro _ _ r s _ _ _ hshapes
  refine (parallel_number hshapes).bind ?_
  rintro x _ r s _ _ rfl hshapes
  exact parallel_ok rfl hshapes

theorem parallel_freshName (h : ts.map Token.shape = us.map Token.shape) :
    Parallel Eq ts us (freshName ts) (freshName us) := by
  refine parallel_single h ?_ ?_
  · rintro rfl rfl
    exact ⟨some .name, rfl, rfl⟩
  · rintro ⟨kind, text, span⟩ ⟨_, _, span'⟩ rest rest' ⟨⟩ rfl rfl
    by_cases ht : kind = .name
    swap
    · refine .inr ⟨.expected (some .name), ?_, ?_⟩ <;>
      · rw [freshName, expect, if_neg ht]
        rfl
    cases hk : Keyword.ofWord? text with
    | none =>
      refine .inl ⟨text, text, by simp, by simp, rfl, ?_, ?_⟩ <;>
      · rw [freshName, expect, if_pos ht]
        exact if_neg (by simp [hk])
    | some k =>
      refine .inr ⟨.reserved, ?_, ?_⟩ <;>
      · rw [freshName, expect, if_pos ht]
        exact if_pos (by simp [hk])

theorem parallel_keyword (k : Keyword) (h : ts.map Token.shape = us.map Token.shape) :
    Parallel Eq ts us (keyword k ts) (keyword k us) := by
  refine parallel_single h ?_ ?_
  · rintro rfl rfl
    exact ⟨some .name, rfl, rfl⟩
  · rintro ⟨kind, text, span⟩ ⟨_, _, span'⟩ rest rest' ⟨⟩ rfl rfl
    by_cases ht : kind = .name
    swap
    · refine .inr ⟨.expected (some .name), ?_, ?_⟩ <;>
      · rw [keyword, expect, if_neg ht]
        rfl
    by_cases hk : Keyword.ofWord? text = some k
    · refine .inl ⟨(), (), by simp, by simp, rfl, ?_, ?_⟩ <;>
      · rw [keyword, expect, if_pos ht]
        exact if_pos hk
    · refine .inr ⟨.expectedKeyword k, ?_, ?_⟩ <;>
      · rw [keyword, expect, if_pos ht]
        exact if_neg hk

/-- The parser goes the same way on rows of the same shapes. -/
theorem parallel_expr (h : ts.map Token.shape = us.map Token.shape) :
    Parallel (fun a b => a.unplaced = b.unplaced) ts us (expr ts) (expr us) := by
  -- every recursive call is on a shorter row
  induction hn : ts.length using Nat.strong_induction_on generalizing ts us with
  | _ n ih =>
  cases ts with
  | nil =>
    obtain rfl : us = [] := List.map_eq_nil_iff.1 h.symm
    rw [expr]
    exact SameFault.atEnd none
  | cons t ts =>
  cases us with
  | nil => cases h
  | cons u us =>
  obtain ⟨kind, text, span⟩ := t
  obtain ⟨_, _, span'⟩ := u
  obtain ⟨⟨⟩, hrest⟩ := List.cons.inj h
  have shorter {r s : List Token} (hlt : r.length < ts.length)
      (hshapes : r.map Token.shape = s.map Token.shape) :
      Parallel (fun a b => a.unplaced = b.unplaced) r s (expr r) (expr s) :=
    ih r.length (by rw [← hn, List.length_cons]; omega) hshapes rfl
  have refused (objection : Objection) : SameFault (⟨kind, text, span⟩ :: ts)
      (⟨kind, text, span'⟩ :: us) (objection.fault _) (objection.fault _) :=
    .atToken objection List.mem_cons_self List.mem_cons_self rfl
  rw [expr, expr]
  by_cases hname : kind = .name
  swap
  · rw [if_neg hname, if_neg hname]
    exact refused (.expected none)
  rw [if_pos hname, if_pos hname]
  dsimp only
  cases hk : Keyword.ofWord? text with
  | none =>
    refine .cons ?_
    exact parallel_ok rfl hrest
  | some k =>
  cases k with
  | «in» => exact refused .unexpectedKeyword
  | empty =>
    refine .cons ?_
    exact parallel_ok rfl hrest
  | point =>
    refine .cons ?_
    refine (parallel_numberAfter .leftParen hrest).bind ?_
    rintro x _ r₁ s₁ _ _ rfl h₁
    refine (parallel_numberAfter .comma h₁).bind ?_
    rintro y _ r₂ s₂ _ _ rfl h₂
    refine (parallel_expect .rightParen h₂).bind ?_
    rintro _ _ r₃ s₃ _ _ _ h₃
    exact parallel_ok rfl h₃
  | line =>
    refine .cons ?_
    refine (parallel_numberAfter .leftParen hrest).bind ?_
    rintro m _ r₁ s₁ _ _ rfl h₁
    refine (parallel_numberAfter .comma h₁).bind ?_
    rintro b _ r₂ s₂ _ _ rfl h₂
    refine (parallel_expect .rightParen h₂).bind ?_
    rintro _ _ r₃ s₃ _ _ _ h₃
    exact parallel_ok rfl h₃
  | vline =>
    refine .cons ?_
    refine (parallel_numberAfter .leftParen hrest).bind ?_
    rintro x _ r₁ s₁ _ _ rfl h₁
    refine (parallel_expect .rightParen h₁).bind ?_
    rintro _ _ r₂ s₂ _ _ _ h₂
    exact parallel_ok rfl h₂
  | segment =>
    refine .cons ?_
    refine (parallel_numberAfter .leftParen hrest).bind ?_
    rintro x₁ _ r₁ s₁ _ _ rfl h₁
    refine (parallel_numberAfter .comma h₁).bind ?_
    rintro y₁ _ r₂ s₂ _ _ rfl h₂
    refine (parallel_numberAfter .comma h₂).bind ?_
    rintro x₂ _ r₃ s₃ _ _ rfl h₃
    refine (parallel_numberAfter .comma h₃).bind ?_
    rintro y₂ _ r₄ s₄ _ _ rfl h₄
    refine (parallel_expect .rightParen h₄).bind ?_
    rintro _ _ r₅ s₅ _ _ _ h₅
    exact parallel_ok rfl h₅
  | intersect =>
    refine .cons ?_
    refine (parallel_expect .leftParen hrest).bind ?_
    rintro _ _ r₁ s₁ l₁ _ _ h₁
    refine (shorter l₁ h₁).bind ?_
    rintro a a' r₂ s₂ l₂ _ ha h₂
    refine (parallel_expect .comma h₂).bind ?_
    rintro _ _ r₃ s₃ l₃ _ _ h₃
    refine (shorter (by omega) h₃).bind ?_
    rintro b b' r₄ s₄ _ _ hb h₄
    refine (parallel_expect .rightParen h₄).bind ?_
    rintro _ _ r₅ s₅ _ _ _ h₅
    refine parallel_ok ?_ h₅
    rw [Expr.unplaced, Expr.unplaced, ha, hb]
  | shift =>
    refine .cons ?_
    refine (parallel_numberAfter .leftParen hrest).bind ?_
    rintro dx _ r₁ s₁ l₁ _ rfl h₁
    refine (parallel_numberAfter .comma h₁).bind ?_
    rintro dy _ r₂ s₂ l₂ _ rfl h₂
    refine (parallel_expect .comma h₂).bind ?_
    rintro _ _ r₃ s₃ l₃ _ _ h₃
    refine (shorter (by omega) h₃).bind ?_
    rintro a a' r₄ s₄ _ _ ha h₄
    refine (parallel_expect .rightParen h₄).bind ?_
    rintro _ _ r₅ s₅ _ _ _ h₅
    refine parallel_ok ?_ h₅
    rw [Expr.unplaced, Expr.unplaced, ha]
  | «let» =>
    refine .cons ?_
    refine (parallel_freshName hrest).bind ?_
    rintro name _ r₁ s₁ l₁ _ rfl h₁
    refine (parallel_expect .equal h₁).bind ?_
    rintro _ _ r₂ s₂ l₂ _ _ h₂
    refine (shorter (by omega) h₂).bind ?_
    rintro a a' r₃ s₃ l₃ _ ha h₃
    refine (parallel_keyword .in h₃).bind ?_
    rintro _ _ r₄ s₄ l₄ _ _ h₄
    refine (shorter (by omega) h₄).bind ?_
    rintro b b' r₅ s₅ _ _ hb h₅
    refine parallel_ok ?_ h₅
    rw [Expr.unplaced, Expr.unplaced, ha, hb]

/-- Rows of the same shapes are equal programs, up to places, or both have the same fault. -/
theorem program_cases (h : ts.map Token.shape = us.map Token.shape) :
    (∃ a b, program ts = .ok a ∧ program us = .ok b ∧ a.unplaced = b.unplaced) ∨
      ∃ fault fault', program ts = .error fault ∧ program us = .error fault' ∧
        SameFault ts us fault fault' := by
  cases ts with
  | nil =>
    obtain rfl : us = [] := List.map_eq_nil_iff.1 h.symm
    exact .inr ⟨_, _, rfl, rfl, .noTokens⟩
  | cons t ts =>
  cases us with
  | nil => cases h
  | cons u us =>
  have hexpr := parallel_expr h
  rw [program, program, List.isEmpty_cons, List.isEmpty_cons, if_neg Bool.false_ne_true,
    if_neg Bool.false_ne_true]
  cases hts : expr (t :: ts) with
  | error fault =>
    rw [hts] at hexpr
    cases hus : expr (u :: us) with
    | error fault' =>
      rw [hus] at hexpr
      exact .inr ⟨fault, fault', rfl, rfl, hexpr⟩
    | ok p =>
      rw [hus] at hexpr
      exact absurd hexpr id
  | ok p =>
    rw [hts] at hexpr
    cases hus : expr (u :: us) with
    | error fault' =>
      rw [hus] at hexpr
      exact absurd hexpr id
    | ok q =>
      rw [hus] at hexpr
      obtain ⟨a, r, _⟩ := p
      obtain ⟨b, s, _⟩ := q
      obtain ⟨hab, hr, hs, hshapes⟩ := hexpr
      cases r with
      | nil =>
        obtain rfl : s = [] := List.map_eq_nil_iff.1 hshapes.symm
        exact .inl ⟨a, b, rfl, rfl, hab⟩
      | cons v r =>
        cases s with
        | nil => cases hshapes
        | cons w s =>
          exact .inr ⟨_, _, rfl, rfl, .atToken .trailing (hr List.mem_cons_self)
            (hs List.mem_cons_self) (List.cons.inj hshapes).1⟩

end Parser

end Planar
