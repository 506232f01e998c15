import Planar.Expr.Scope
import Planar.Proofs.Run.Levels
import Planar.Proofs.Source.Lexemes

/-!
# Free occurrences of names

A name is free where no binding around it binds it. The free occurrences of a program decide what
checking and evaluating it make of it: both fail at the first of them in source order, and without
any both succeed.

* `Expr.FreeAt` — a name occurs free at a place;
* `Expr.loose` — the free occurrences, in source order;
* `Expr.answers_check`, `Expr.answers_eval` — checking and evaluating fail exactly at the first one;
* `scope_checks_agree` — for every program, the check, the evaluation and the set of free names
  agree.
-/

namespace Planar

open Grammar

variable {α : Type}

namespace Expr

/-- Whether a name occurs at a place where no binding around it binds it. A binding binds its name
in its body only. -/
inductive FreeAt (name : String) (span : Option Span) : Expr α → Prop where
  | var : FreeAt name span (.var name span)
  | first {a b : Expr α} {s : Option Span} (h : FreeAt name span a) :
      FreeAt name span (.intersect a b s)
  | second {a b : Expr α} {s : Option Span} (h : FreeAt name span b) :
      FreeAt name span (.intersect a b s)
  | bound {x : String} {a b : Expr α} {s : Option Span} (h : FreeAt name span a) :
      FreeAt name span (.bind x a b s)
  | body {x : String} {a b : Expr α} {s : Option Span} (hne : name ≠ x)
      (h : FreeAt name span b) : FreeAt name span (.bind x a b s)
  | shift {dx dy : α} {a : Expr α} {s : Option Span} (h : FreeAt name span a) :
      FreeAt name span (.shift dx dy a s)

/-- The occurrences of names that neither a binding of the tree nor `bound` binds, in source
order. -/
def loose (bound : List String) : Expr α → List (String × Option Span)
  | literal _ _ | placeholder => []
  | var name span => if name ∈ bound then [] else [(name, span)]
  | intersect a b _ => loose bound a ++ loose bound b
  | bind x a b _ => loose bound a ++ loose (x :: bound) b
  | shift _ _ a _ => loose bound a

theorem mem_loose {e : Expr α} {bound : List String} {name : String} {span : Option Span} :
    (name, span) ∈ e.loose bound ↔ e.FreeAt name span ∧ name ∉ bound := by
  induction e generalizing bound with
  | literal v s => exact iff_of_false nofun nofun
  | var x s =>
    rw [loose]
    split
    · next hmem =>
      refine iff_of_false nofun ?_
      rintro ⟨⟨⟩, hfree⟩
      exact hfree hmem
    · next hmem =>
      rw [List.mem_singleton, Prod.mk.injEq]
      constructor
      · rintro ⟨rfl, rfl⟩
        exact ⟨.var, hmem⟩
      · rintro ⟨⟨⟩, _⟩
        exact ⟨rfl, rfl⟩
  | intersect a b s iha ihb =>
    rw [loose, List.mem_append, iha, ihb]
    constructor
    · rintro (⟨h, hbound⟩ | ⟨h, hbound⟩)
      · exact ⟨.first h, hbound⟩
      · exact ⟨.second h, hbound⟩
    · rintro ⟨hfree, hbound⟩
      cases hfree with
      | first h => exact .inl ⟨h, hbound⟩
      | second h => exact .inr ⟨h, hbound⟩
  | bind x a b s iha ihb =>
    rw [loose, List.mem_append, iha, ihb, List.mem_cons, not_or]
    constructor
    · rintro (⟨h, hbound⟩ | ⟨h, hne, hbound⟩)
      · exact ⟨.bound h, hbound⟩
      · exact ⟨.body hne h, hbound⟩
    · rintro ⟨hfree, hbound⟩
      cases hfree with
      | bound h => exact .inl ⟨h, hbound⟩
      | body hne h => exact .inr ⟨h, hne, hbound⟩
  | shift dx dy a s ih =>
    rw [loose, ih]
    constructor
    · rintro ⟨h, hbound⟩
      exact ⟨.shift h, hbound⟩
    · rintro ⟨hfree, hbound⟩
      cases hfree with
      | shift h => exact ⟨h, hbound⟩
  | placeholder => exact iff_of_false nofun nofun

/-- The free names of a tree are those that occur free in it. -/
theorem map_fst_loose (e : Expr α) (bound : List String) :
    (e.loose bound).map Prod.fst = e.free.filter (· ∉ bound) := by
  induction e generalizing bound with
  | literal v s => rfl
  | var x s =>
    rw [loose, free]
    split
    · next hmem => simp [hmem]
    · next hmem => simp [hmem]
  | intersect a b s iha ihb => rw [loose, free, List.map_append, List.filter_append, iha, ihb]
  | bind x a b s iha ihb =>
    rw [loose, free, List.map_append, List.filter_append, iha, ihb, List.filter_filter]
    congr 2
    funext name
    simp [not_or, Bool.and_comm]
  | shift dx dy a s ih => rw [loose, free, ih]
  | placeholder => rfl

theorem loose_normalized [Scalar α] (e : Expr α) (bound : List String) :
    e.normalized.loose bound = e.loose bound := by
  induction e generalizing bound with
  | intersect a b s iha ihb => rw [normalized, loose, loose, iha, ihb]
  | bind x a b s iha ihb => rw [normalized, loose, loose, iha, ihb]
  | shift dx dy a s ih => rw [normalized, loose, loose, ih]
  | _ => rfl

theorem IsPrintable.isConcrete {e : Expr Float} (h : e.IsPrintable) : e.IsConcrete := by
  induction e with
  | literal v s =>
    obtain ⟨xs, hxs, _⟩ := h
    exact (Value.isConcrete_iff v).2 (by rw [hxs]; rfl)
  | var x s => trivial
  | intersect a b s iha ihb => exact ⟨iha h.1, ihb h.2⟩
  | bind x a b s iha ihb => exact ⟨iha h.2.1, ihb h.2.2⟩
  | shift dx dy a s ih => exact ih h.2.2
  | placeholder => exact h.elim

end Expr

/-! ## Failing at the first free occurrence -/

section Answers

variable {ε β γ : Type} {fault : String → Option Span → ε} {Q : β → Prop} {R : γ → Prop}

/-- Whether a result is the fault at the first of some occurrences or, where there are none,
something of which `Q` holds. -/
def Answers (fault : String → Option Span → ε) (Q : β → Prop) :
    List (String × Option Span) → Except ε β → Prop
  | [], result => ∃ b, result = .ok b ∧ Q b
  | (name, span) :: _, result => result = .error (fault name span)

/-- A sequence fails at the first occurrence of its first part that has any. -/
theorem Answers.bind {first second : List (String × Option Span)} {result : Except ε β}
    {next : β → Except ε γ} (h : Answers fault Q first result)
    (hnext : ∀ b, Q b → Answers fault R second (next b)) :
    Answers fault R (first ++ second) (result >>= next) := by
  cases first with
  | nil =>
    obtain ⟨b, rfl, hb⟩ := h
    exact hnext b hb
  | cons occurrence first =>
    obtain ⟨name, span⟩ := occurrence
    have herror : result = .error (fault name span) := h
    rw [herror]
    exact rfl

end Answers

namespace Expr

theorem firstNonFinite?_eq_none_iff {xs : List Float} :
    firstNonFinite? xs = none ↔ ∀ x ∈ xs, x.isFinite = true := by
  rw [firstNonFinite?, Option.map_eq_none_iff, List.find?_eq_none]
  simp

theorem requireFinite_eq_ok_iff {xs : List Float} {violation : Double → Violation} :
    requireFinite xs violation = .ok () ↔ ∀ x ∈ xs, x.isFinite = true := by
  rw [requireFinite, ← firstNonFinite?_eq_none_iff]
  cases firstNonFinite? xs <;> simp

/-- Checking a tree that can be written fails at the first free occurrence only. -/
theorem answers_check {e : Expr Float} (h : e.IsPrintable) (bound : List String) :
    Answers .unbound (fun _ => True) (e.loose bound) (e.check bound) := by
  induction e generalizing bound with
  | literal v s =>
    obtain ⟨xs, hxs, hfinite⟩ := h
    refine ⟨(), ?_, trivial⟩
    rw [check, hxs]
    exact requireFinite_eq_ok_iff.2 hfinite
  | var x s =>
    rw [loose, check]
    split
    · exact ⟨(), rfl, trivial⟩
    · exact rfl
  | intersect a b s iha ihb => exact (iha h.1 bound).bind fun _ _ => ihb h.2 bound
  | bind x a b s iha ihb =>
    obtain ⟨hname, ha, hb⟩ := h
    have hproper : (x.isEmpty || (Keyword.ofWord? x).isSome) = false := by
      obtain ⟨c, cs, hword, _⟩ := hname.shape
      rw [Keyword.ofWord?_eq_none_iff.2 hname.fresh, Option.isSome_none, Bool.or_false,
        ← Bool.not_eq_true, String.isEmpty_iff]
      rintro rfl
      cases hword
    rw [loose, check, hproper]
    exact (iha ha bound).bind fun _ _ => ihb hb (x :: bound)
  | shift dx dy a s ih =>
    obtain ⟨hdx, hdy, ha⟩ := h
    rw [loose, check, requireFinite_eq_ok_iff.2 (by simp [hdx, hdy])]
    exact ih ha bound
  | placeholder => exact h.elim

/-- Evaluating a tree in an environment that binds those of its free names that are given fails at
the first free occurrence only. -/
theorem answers_eval [Scalar α] {e : Expr α} (h : e.IsConcrete) {env : Env α} {bound : List String}
    (hnone : ∀ name ∈ e.free, name ∉ bound → env.get? name = none)
    (hsome : ∀ name ∈ e.free, name ∈ bound → ∃ v, env.get? name = some v ∧ v.IsConcrete) :
    Answers .unbound Value.IsConcrete (e.loose bound) (e.eval env).result := by
  induction e generalizing env bound with
  | literal v s => exact ⟨v, by rw [eval, Traced.result_call]; rfl, h⟩
  | var x s =>
    have hx : x ∈ (var x s : Expr α).free := List.mem_singleton_self x
    rw [loose, eval, Traced.result_call, Traced.result_ofExcept, Env.lookup]
    split
    · next hmem =>
      obtain ⟨v, hv, hconcrete⟩ := hsome x hx hmem
      exact ⟨v, by rw [hv], hconcrete⟩
    · next hmem =>
      rw [hnone x hx hmem]
      exact rfl
  | intersect a b s iha ihb =>
    obtain ⟨hnonea, hnoneb⟩ := List.forall_mem_append.1 hnone
    obtain ⟨hsomea, hsomeb⟩ := List.forall_mem_append.1 hsome
    rw [loose, eval, Traced.result_call, Traced.result_bind]
    refine (iha h.1 hnonea hsomea).bind fun v hv => ?_
    rw [Traced.result_bind, ← List.append_nil (b.loose bound)]
    exact (ihb h.2 hnoneb hsomeb).bind fun w hw => Value.exists_intersect hv hw
  | bind x a b s iha ihb =>
    obtain ⟨hnonea, hnoneb⟩ := List.forall_mem_append.1 hnone
    obtain ⟨hsomea, hsomeb⟩ := List.forall_mem_append.1 hsome
    have hbody {name : String} (hname : name ∈ b.free) (hne : name ≠ x) :
        name ∈ b.free.filter (· ≠ x) := List.mem_filter.2 ⟨hname, decide_eq_true hne⟩
    rw [loose, eval, Traced.result_call, Traced.result_bind]
    -- the body sees the names from outside and the new one, and its environment binds just these
    refine (iha h.1 hnonea hsomea).bind fun v hv => ihb h.2 ?_ ?_
    · intro name hname hfree
      rw [List.mem_cons, not_or] at hfree
      rw [Env.get?_bind, if_neg hfree.1]
      exact hnoneb name (hbody hname hfree.1) hfree.2
    · intro name hname hmem
      rw [Env.get?_bind]
      split
      · exact ⟨v, rfl, hv⟩
      · next hne => exact hsomeb name (hbody hname hne) ((List.mem_cons.1 hmem).resolve_left hne)
  | shift dx dy a s ih =>
    rw [loose, eval, Traced.result_call, Traced.result_bind, ← List.append_nil (a.loose bound)]
    exact (ih h hnone hsome).bind fun v hv => Value.exists_shift hv dx dy
  | placeholder => exact h.elim

/-- Evaluating a normalized tree where nothing is bound fails at the first free occurrence only. -/
theorem answers_eval_normalized [Scalar α] {e : Expr α} (h : e.IsConcrete) :
    Answers .unbound Value.IsConcrete (e.loose []) (e.normalized.eval .empty).result := by
  rw [← loose_normalized]
  exact answers_eval h.normalized (fun _ _ _ => Env.get?_empty _) fun _ _ hmem => nomatch hmem

/-- Normalizing and evaluating a tree fails at its first free occurrence only. -/
theorem answers_evaluate [Scalar α] {e : Expr α} (h : e.IsConcrete) :
    Answers .unbound Value.IsConcrete (e.loose []) e.evaluate.result := by
  have hnormalize : e.normalize.result = .ok e.normalized := normalize_fst h .warning
  rw [evaluate, Traced.result_call, Traced.result_bind, hnormalize]
  show Answers _ _ _ (e.normalized.evaluateIn (some .empty)).result
  rw [evaluateIn, Traced.result_call]
  exact answers_eval_normalized h

end Expr

/-! ## Source order -/

/-- The free occurrences of a derivation are tokens of it, in the same order. -/
theorem Grammar.Tree.sublist_loose (d : Tree) (bound : List String) :
    ((d.expr.loose bound).map Prod.snd).Sublist (d.tokens.map fun t => some t.span) := by
  induction d generalizing bound with
  | literal v => exact List.nil_sublist _
  | intersect w l a c b r iha ihb =>
    rw [expr, Expr.loose, tokens, List.map_append]
    simp only [List.map_cons, List.map_append]
    exact (((iha bound).append (((ihb bound).trans (List.sublist_append_left _ _)).cons _)).cons
      _).cons _
  | shift w l dx c₁ dy c₂ a r ih =>
    rw [expr, Expr.loose, tokens]
    simp only [List.map_cons, List.map_append]
    have hbody := ((ih bound).trans (List.sublist_append_left _ [some r.token.span])).cons
      (some c₂.token.span)
    exact (((((hbody.trans (List.sublist_append_right _ _)).cons _).trans
      (List.sublist_append_right _ _)).cons _).cons _)
  | bind w x q a i b iha ihb =>
    rw [expr, Expr.loose, tokens, List.map_append]
    simp only [List.map_cons, List.map_append]
    exact ((((iha bound).append ((ihb _).cons _)).cons _).cons _).cons _
  | var x =>
    rw [expr, Expr.loose, tokens]
    split
    · exact List.nil_sublist _
    · exact List.Sublist.refl _

/-- The first free occurrence of a program comes before all others. -/
theorem Expr.before_of_loose {text : String} {e : Expr Float} (h : Expr.parse text = .ok e)
    {name : String} {place : Option Span} {more : List (String × Option Span)}
    (hloose : e.loose [] = (name, place) :: more) :
    ∃ span, place = some span ∧
      ∀ occurrence ∈ more, ∃ s, occurrence.2 = some s ∧ span.Before s := by
  obtain ⟨d, hscan, rfl⟩ := Expr.exists_tree_of_parse h
  have hsublist := d.sublist_loose []
  have hpairwise : (d.tokens.map fun t => some t.span).Pairwise fun p q =>
      ∃ a b, p = some a ∧ q = some b ∧ a.Before b := by
    rw [List.pairwise_map]
    exact (Token.pairwise_of_scan hscan).imp fun {t u} hbefore =>
      ⟨t.span, u.span, rfl, rfl, hbefore⟩
  rw [hloose, List.map_cons] at hsublist
  obtain ⟨t, _, ht⟩ := List.mem_map.1 (hsublist.subset List.mem_cons_self)
  refine ⟨t.span, ht.symm, ?_⟩
  intro occurrence hmem
  obtain ⟨a, b, ha, hb, hbefore⟩ := List.rel_of_pairwise_cons (hpairwise.sublist hsublist)
    (List.mem_map_of_mem hmem)
  rw [← ht] at ha
  cases ha
  exact ⟨b, hb, hbefore⟩

/-- For every program, checking fails exactly if evaluating finds an unbound name, and exactly if
there are free names. Both then name the first free occurrence in source order; otherwise both
succeed. -/
theorem scope_checks_agree (text : String) (e : Expr Float) (h : Expr.parse text = .ok e) :
    ∃ names, e.freeNames = .ok names ∧ (∀ name, name ∈ names ↔ ∃ place, e.FreeAt name place) ∧
      ((∃ violation, e.validate = .error violation) ↔ names ≠ []) ∧
      ((∃ name place, e.evaluate.result = .error (.unbound name place)) ↔ names ≠ []) ∧
      (names = [] → e.validate = .ok () ∧ ∃ v, e.evaluate.result = .ok v) ∧
      (names ≠ [] → ∃ name span, e.validate = .error (.unbound name (some span)) ∧
        e.evaluate.result = .error (.unbound name (some span)) ∧ e.FreeAt name (some span) ∧
        ∀ other place, e.FreeAt other place →
          other = name ∧ place = some span ∨ ∃ s, place = some s ∧ span.Before s) := by
  have hprintable := Expr.isPrintable_of_parse h
  have hcheck : Answers Violation.unbound (fun _ => True) (e.loose []) e.validate :=
    Expr.answers_check hprintable []
  have hevaluate := Expr.answers_evaluate hprintable.isConcrete
  have hfree : e.free = (e.loose []).map Prod.fst := by
    rw [Expr.map_fst_loose, List.filter_eq_self.2]
    simp
  have hmem : ∀ name place, e.FreeAt name place ↔ (name, place) ∈ e.loose [] := by
    intro name place
    simp [Expr.mem_loose]
  refine ⟨_, if_pos hprintable.isConcrete.isComplete, ?_, ?_⟩
  · intro name
    simp [List.mem_mergeSort, List.mem_eraseDups, hfree, hmem]
  have hnil : (e.free.eraseDups.mergeSort fun a b => !decide (b < a)) = [] ↔ e.loose [] = [] := by
    rw [List.eq_nil_iff_forall_not_mem, List.eq_nil_iff_forall_not_mem]
    simp [List.mem_mergeSort, List.mem_eraseDups, hfree]
  rw [ne_eq, hnil]
  cases hloose : e.loose [] with
  | nil =>
    rw [hloose] at hcheck hevaluate
    obtain ⟨_, hcheck, _⟩ := hcheck
    obtain ⟨v, hvalue, _⟩ := hevaluate
    simp [hcheck, hvalue]
  | cons occurrence more =>
    obtain ⟨name, place⟩ := occurrence
    obtain ⟨span, rfl, hbefore⟩ := Expr.before_of_loose h hloose
    rw [hloose] at hcheck hevaluate
    have hcheck : e.validate = .error (.unbound name (some span)) := hcheck
    have hevaluate : e.evaluate.result = .error (.unbound name (some span)) := hevaluate
    refine ⟨by simp [hcheck], by simp [hevaluate], nofun, fun _ => ⟨name, span, hcheck, hevaluate,
      ?_, ?_⟩⟩
    · rw [hmem, hloose]
      exact List.mem_cons_self
    · intro other place hother
      rw [hmem, hloose, List.mem_cons, Prod.mk.injEq] at hother
      exact hother.imp_right fun hmore => hbefore _ hmore

/-- A binding is not in scope in its own value, so the first free name here is the one it binds. -/
theorem scope_checks_agree_own_value :
    ∃ e, Expr.parse "let a = intersect(a, empty) in\n  intersect(a, b)" = .ok e ∧
      ∃ names, e.freeNames = .ok names ∧ (∀ name, name ∈ names ↔ ∃ place, e.FreeAt name place) ∧
        ((∃ violation, e.validate = .error violation) ↔ names ≠ []) ∧
        ((∃ name place, e.evaluate.result = .error (.unbound name place)) ↔ names ≠ []) ∧
        (names = [] → e.validate = .ok () ∧ ∃ v, e.evaluate.result = .ok v) ∧
        (names ≠ [] → ∃ name span, e.validate = .error (.unbound name (some span)) ∧
          e.evaluate.result = .error (.unbound name (some span)) ∧ e.FreeAt name (some span) ∧
          ∀ other place, e.FreeAt other place →
            other = name ∧ place = some span ∨ ∃ s, place = some s ∧ span.Before s) := by
  have h : Expr.parse "let a = intersect(a, empty) in\n  intersect(a, b)" =
      .ok (.bind "a" (.intersect (.var "a" (some ⟨1, 19⟩)) (.literal .empty (some ⟨1, 22⟩))
        (some ⟨1, 9⟩)) (.intersect (.var "a" (some ⟨2, 13⟩)) (.var "b" (some ⟨2, 16⟩))
        (some ⟨2, 3⟩)) (some ⟨1, 1⟩)) := by
    cbv
  exact ⟨_, h, scope_checks_agree _ _ h⟩

end Planar
