import Planar.Proofs.Binding.FreeNames
import Planar.Proofs.Run.Transparency

/-!
# Inlining bindings

The body of a binding may be read with the bound expression in place of the name. The value is the
same as long as no binding in the body gets hold of a free name of what is put there: the bound
expression then has one value wherever it stands.

* `Expr.inlined` — a tree with an expression in place of the free occurrences of a name;
* `Expr.Admits` — putting an expression with the given free names in place captures none of them;
* `Expr.result_eval_inlined` — in place of the name, the expression counts for as much as a binding
  of its value;
* `Expr.normalized_inlined` — normalizing commutes with inlining;
* `inline_binding` — a binding and what it becomes when it is inlined have the same value or fault.
-/

namespace Planar

variable {α : Type}

namespace Expr

/-! ## An expression in place of a name -/

/-- A tree with `d` in place of the free occurrences of `x`. -/
def inlined : (e : Expr α) → (x : String) → (d : Expr α) → Expr α
  | literal v span, _, _ => literal v span
  | var y span, x, d => if y = x then d else var y span
  | intersect a b span, x, d => intersect (a.inlined x d) (b.inlined x d) span
  | bind y a b span, x, d => bind y (a.inlined x d) (if y = x then b else b.inlined x d) span
  | shift dx dy a span, x, d => shift dx dy (a.inlined x d) span
  | placeholder, _, _ => placeholder

/-- Whether an expression with the free names `names` keeps them free when it is put in place of the
free occurrences of `x`: a binding with such an occurrence in its body binds none of them. Nothing is
put into the body of a binding of `x` itself. -/
def Admits (x : String) (names : List String) : Expr α → Prop
  | literal _ _ | var _ _ | placeholder => True
  | intersect a b _ => a.Admits x names ∧ b.Admits x names
  | bind y a b _ => a.Admits x names ∧ (y ≠ x → x ∈ b.free → y ∉ names ∧ b.Admits x names)
  | shift _ _ a _ => a.Admits x names

variable {x : String} {d e : Expr α}

/-- A tree in which a name does not occur free stays as it is. -/
theorem inlined_of_notMem (h : x ∉ e.free) : e.inlined x d = e := by
  induction e with
  | literal v span => rfl
  | var y span => rw [inlined, if_neg fun heq => h (List.mem_singleton.2 heq.symm)]
  | intersect a b span iha ihb =>
    rw [free, List.mem_append, not_or] at h
    rw [inlined, iha h.1, ihb h.2]
  | bind y a b span iha ihb =>
    rw [free, List.mem_append, not_or, List.mem_filter, not_and, decide_eq_true_iff, not_not] at h
    rw [inlined, iha h.1]
    split
    · rfl
    · next hne => rw [ihb fun hmem => hne (h.2 hmem).symm]
  | shift dx dy a span ih => rw [inlined, ih h]
  | placeholder => rfl

/-- What is free after inlining was free in the expression, or in the tree apart from the name. -/
theorem mem_free_of_inlined {name : String} (h : name ∈ (e.inlined x d).free) :
    name ∈ d.free ∨ name ∈ e.free ∧ name ≠ x := by
  induction e with
  | literal v span => exact absurd h List.not_mem_nil
  | var y span =>
    rw [inlined] at h
    split at h
    · exact .inl h
    · next hne =>
      obtain rfl := List.mem_singleton.1 h
      exact .inr ⟨h, hne⟩
  | intersect a b span iha ihb =>
    rcases List.mem_append.1 h with h | h
    · exact (iha h).imp_right fun hmem => ⟨List.mem_append_left _ hmem.1, hmem.2⟩
    · exact (ihb h).imp_right fun hmem => ⟨List.mem_append_right _ hmem.1, hmem.2⟩
  | bind y a b span iha ihb =>
    rcases List.mem_append.1 h with h | h
    · exact (iha h).imp_right fun hmem => ⟨List.mem_append_left _ hmem.1, hmem.2⟩
    · obtain ⟨hbody, hne⟩ := List.mem_filter.1 h
      by_cases heq : y = x
      · rw [if_pos heq] at hbody
        refine .inr ⟨List.mem_append_right _ (List.mem_filter.2 ⟨hbody, hne⟩), ?_⟩
        rw [← heq]
        exact of_decide_eq_true hne
      · rw [if_neg heq] at hbody
        exact (ihb hbody).imp_right fun hmem =>
          ⟨List.mem_append_right _ (List.mem_filter.2 ⟨hmem.1, hne⟩), hmem.2⟩
  | shift dx dy a span ih => exact ih h
  | placeholder => exact absurd h List.not_mem_nil

theorem IsConcrete.inlined (he : e.IsConcrete) (hd : d.IsConcrete) :
    (e.inlined x d).IsConcrete := by
  induction e with
  | literal v span => exact he
  | var y span =>
    rw [Expr.inlined]
    split
    · exact hd
    · trivial
  | intersect a b span iha ihb => exact ⟨iha he.1, ihb he.2⟩
  | bind y a b span iha ihb =>
    refine ⟨iha he.1, ?_⟩
    split
    · exact he.2
    · exact ihb he.2
  | shift dx dy a span ih => exact ih he
  | placeholder => exact he

variable [Scalar α]

/-- Normalizing a tree with an expression in place puts the normalized expression in place in the
normalized tree. -/
theorem normalized_inlined (x : String) (d e : Expr α) :
    (e.inlined x d).normalized = e.normalized.inlined x d.normalized := by
  induction e with
  | literal v span => rfl
  | var y span =>
    rw [inlined, normalized, inlined]
    split <;> rfl
  | intersect a b span iha ihb => rw [inlined, normalized, normalized, inlined, iha, ihb]
  | bind y a b span iha ihb =>
    rw [inlined, normalized, normalized, inlined, iha, ← ihb]
    congr 1
    split <;> rfl
  | shift dx dy a span ih => rw [inlined, normalized, normalized, inlined, ih]
  | placeholder => rfl

theorem Admits.normalized {names : List String} (h : e.Admits x names) :
    e.normalized.Admits x names := by
  induction e with
  | intersect a b span iha ihb => exact ⟨iha h.1, ihb h.2⟩
  | bind y a b span iha ihb =>
    refine ⟨iha h.1, fun hne hmem => ?_⟩
    rw [free_normalized] at hmem
    exact (h.2 hne hmem).imp_right ihb
  | shift dx dy a span ih => exact ih h
  | _ => trivial

/-! ## Evaluation -/

/-- With an expression in place of a name a tree has the value or fault that it has where the name is
bound to the value of the expression. -/
theorem result_eval_inlined {env : Env α} {v : Value α} (hd : (d.eval env).result = .ok v)
    (hadmits : e.Admits x d.free) :
    ((e.inlined x d).eval env).result = (e.eval (env.bind x v)).result := by
  induction e generalizing env with
  | literal w span => rw [inlined, eval, eval, Traced.result_call, Traced.result_call]
  | var y span =>
    rw [inlined, eval, Traced.result_call, Traced.result_ofExcept, Env.lookup, Env.get?_bind]
    split
    · exact hd
    · rw [eval, Traced.result_call, Traced.result_ofExcept, Env.lookup]
  | intersect a b span iha ihb =>
    simp only [inlined, eval, Traced.result_call, Traced.result_bind, iha hd hadmits.1,
      ihb hd hadmits.2]
  | bind y a b span iha ihb =>
    have hbody (w : Value α) : ((if y = x then b else b.inlined x d).eval (env.bind y w)).result =
        (b.eval ((env.bind x v).bind y w)).result := by
      split
      · next heq =>
        -- the binding in the tree hides the one from outside
        subst heq
        exact (result_eval_congr (Env.agreesOn_bind_bind b.free env y v w)).symm
      · next hne =>
        by_cases hmem : x ∈ b.free
        · -- the binding does not touch the free names of the expression, whose value stays
          obtain ⟨hfree, hb⟩ := hadmits.2 hne hmem
          have hvalue := (result_eval_congr (Env.agreesOn_bind hfree env w)).trans hd
          rw [ihb hvalue hb]
          exact (result_eval_congr
            (Env.agreesOn_bind_comm b.free env (fun heq => hne heq.symm) v w)).symm
        · rw [inlined_of_notMem hmem]
          have hcomm := Env.agreesOn_bind_comm b.free env (fun heq => hne heq.symm) v w
          rw [result_eval_congr hcomm, result_eval_congr (Env.agreesOn_bind hmem _ v)]
    simp only [inlined, eval, Traced.result_call, Traced.result_bind, iha hd hadmits.1, hbody]
  | shift dx dy a span ih =>
    simp only [inlined, eval, Traced.result_call, Traced.result_bind, ih hd hadmits]
  | placeholder => rw [inlined, eval, eval, Traced.result_call, Traced.result_call]

/-- Where an expression has a value, a binding of it has the value or fault of the body with the
expression in place. -/
theorem result_eval_bind {env : Env α} {v : Value α} (hd : (d.eval env).result = .ok v)
    (hadmits : e.Admits x d.free) (span : Option Span) :
    ((bind x d e span).eval env).result = ((e.inlined x d).eval env).result := by
  rw [result_eval_inlined hd hadmits, eval, Traced.result_call, Traced.result_bind, hd]
  rfl

theorem result_evaluate_eval (he : e.IsConcrete) :
    e.evaluate.result = (e.normalized.eval .empty).result := by
  rw [evaluate, Traced.result_call, Traced.result_bind, result_normalize he.isComplete]
  change (e.normalized.evaluateIn (some .empty)).result = _
  rw [evaluateIn, Traced.result_call]
  rfl

theorem settled_evaluate (he : e.IsConcrete) : Settled e.evaluate.result := by
  rw [result_evaluate_eval he]
  exact settled_eval he.normalized fun _ _ _ hv => nomatch hv

end Expr

/-- A binding may be inlined if the bound expression has a value and none of its free names is
captured in the body: in every environment the binding and the body with the expression in place have
one value, or one fault of an unbound name. Normalizing commutes with inlining, so the same holds of
trees that are normalized first. -/
theorem inline_binding [Scalar α] (x : String) (d e : Expr α) (span : Option Span)
    (hd : d.IsConcrete) (he : e.IsConcrete) (hadmits : e.Admits x d.free) :
    (∀ (env : Env α) (v : Value α), env.Supplies (Expr.bind x d e span).free →
      (d.evaluateIn (some env)).result = .ok v →
      ∃ result, Settled result ∧ ((Expr.bind x d e span).evaluateIn (some env)).Ends result ∧
        ((e.inlined x d).evaluateIn (some env)).Ends result) ∧
    (∀ v : Value α, d.evaluate.result = .ok v →
      ∃ result, Settled result ∧ (Expr.bind x d e span).evaluate.Ends result ∧
        (e.inlined x d).evaluate.Ends result) ∧
    ∃ m n, d.normalize.Yields m ∧ e.normalize.Yields n ∧
      (e.inlined x d).normalize.Yields (n.inlined x m) := by
  have hbind : (Expr.bind x d e span).IsConcrete := ⟨hd, he⟩
  have hinlined : (e.inlined x d).IsConcrete := he.inlined hd
  refine ⟨?_, ?_, d.normalized, e.normalized, Expr.normalize_fst hd, Expr.normalize_fst he, ?_⟩
  · intro env v henv hv
    rw [Expr.evaluateIn, Traced.result_call] at hv
    have hv : (d.eval env).result = .ok v := hv
    have henv' : env.Supplies (e.inlined x d).free := by
      refine henv.mono fun name hname => ?_
      rw [Expr.free, List.mem_append, List.mem_filter, decide_eq_true_iff]
      exact Expr.mem_free_of_inlined hname
    have hends := Expr.ends_evaluateIn hinlined henv'
    rw [← Expr.result_eval_bind hv hadmits span] at hends
    exact ⟨_, Expr.settled_eval hbind henv, Expr.ends_evaluateIn hbind henv, hends⟩
  · intro v hv
    rw [Expr.result_evaluate_eval hd] at hv
    have hresult : (e.inlined x d).evaluate.result = (Expr.bind x d e span).evaluate.result := by
      have hadmits' : e.normalized.Admits x d.normalized.free := by
        rw [Expr.free_normalized]
        exact hadmits.normalized
      rw [Expr.result_evaluate_eval hinlined, Expr.normalized_inlined,
        ← Expr.result_eval_bind hv hadmits' span, Expr.result_evaluate_eval hbind]
      rfl
    have hends := (Expr.steady_evaluate hinlined.holdsSets).steady.ends
    rw [hresult] at hends
    exact ⟨_, Expr.settled_evaluate hbind, (Expr.steady_evaluate hbind.holdsSets).steady.ends, hends⟩
  · rw [← Expr.normalized_inlined]
    exact Expr.normalize_fst hinlined

/-- A moved set whose place is bound outside. -/
def Expr.displaced : Expr Float := .shift 1 0 (.var "q" (some ⟨1, 12⟩)) none

/-- A body that uses `p` below a binding of another name, in the value of a binding of `p` itself and
beside it, and that has a free name of its own. -/
def Expr.nested : Expr Float :=
  .bind "r" (.bind "p" (.var "p" none) (.var "p" none) none)
    (.intersect (.var "p" none) (.bind "q" (.var "r" none) (.var "s" (some ⟨3, 4⟩)) none) none) none

theorem inline_binding_nested :
    Expr.displaced.IsConcrete ∧ Expr.nested.IsConcrete ∧
      Expr.nested.Admits "p" Expr.displaced.free ∧
      ∃ (env : Env Float) (v : Value Float),
        env.Supplies (Expr.bind "p" Expr.displaced Expr.nested none).free ∧
        (Expr.displaced.evaluateIn (some env)).result = .ok v ∧
        ∃ result, Settled result ∧
          ((Expr.bind "p" Expr.displaced Expr.nested none).evaluateIn (some env)).Ends result ∧
          ((Expr.nested.inlined "p" Expr.displaced).evaluateIn (some env)).Ends result := by
  have hd : Expr.displaced.IsConcrete := trivial
  have he : Expr.nested.IsConcrete := ⟨⟨trivial, trivial⟩, trivial, trivial, trivial⟩
  have hadmits : Expr.nested.Admits "p" Expr.displaced.free := by
    refine ⟨⟨trivial, fun h => absurd rfl h⟩, fun _ _ => ⟨by decide, trivial, trivial, ?_⟩⟩
    -- the name is not used below the binding of `q`, which may therefore be there
    exact fun _ hmem => absurd hmem (by decide)
  let env : Env Float := ⟨[("q", .point ⟨0, 1⟩), ("p", .placeholder)]⟩
  have henv : env.Supplies (Expr.bind "p" Expr.displaced Expr.nested none).free := by
    have hfree : (Expr.bind "p" Expr.displaced Expr.nested none).free = ["q", "s"] := by decide
    rw [hfree]
    intro name hname v hv
    simp only [List.mem_cons, List.not_mem_nil, or_false] at hname
    rcases hname with rfl | rfl
    · cases hv
      nofun
    · cases hv
  have hv : (Expr.displaced.evaluateIn (some env)).result = .ok (.point ⟨0 + 1, 1 + 0⟩) := rfl
  have hinline := inline_binding "p" Expr.displaced Expr.nested none hd he hadmits
  exact ⟨hd, he, hadmits, env, _, henv, hv, hinline.1 env _ henv hv⟩

end Planar
