import Planar.Proofs.Source.Scoping

/-!
# Evaluation sees the free names only

A tree is evaluated in an environment, and all that counts of the environment is what its free names
lead to. Evaluating ends with a value or with an unbound name, and with an unbound name exactly if a
free name leads to nothing.

* `Traced.Ends` — a run has one result, whatever the level is;
* `Env.AgreesOn`, `Env.Supplies` — what is asked of environments, by the names that are looked up;
* `Expr.result_eval_congr` — environments that agree on the free names give one result;
* `Expr.result_eval_cases`, `Expr.ends_evaluateIn` — how an evaluation ends;
* `evaluate_free_names` — evaluation depends only on free names.
-/

namespace Planar

variable {α β : Type}

/-! ## Runs with one result -/

namespace Traced

/-- Whether a run has a given result at every level. -/
def Ends (run : Traced α β) (result : Except Fault β) : Prop := ∀ level, (run level).1 = result

theorem Steady.ends {run : Traced α β} (h : run.Steady) : run.Ends run.result := h.fst_eq

end Traced

/-- The results that evaluating a tree over the five kinds of set can have: a value, or the fault of
a name that is not bound. -/
inductive Settled : Except Fault (Value α) → Prop where
  | value (v : Value α) : Settled (.ok v)
  | unbound (name : String) (span : Option Span) : Settled (.error (.unbound name span))

/-! ## Environments -/

namespace Env

/-- Whether some names lead to the same values in two environments, or to none in both. -/
def AgreesOn (names : List String) (env env' : Env α) : Prop :=
  ∀ name ∈ names, env.get? name = env'.get? name

/-- Whether what some names lead to, if anything, is one of the five kinds of set. -/
def Supplies (names : List String) (env : Env α) : Prop :=
  ∀ name ∈ names, ∀ v, env.get? name = some v → v.IsConcrete

variable {names : List String} {env env' : Env α}

theorem AgreesOn.mono {names' : List String} (h : AgreesOn names env env')
    (hsubset : names' ⊆ names) : AgreesOn names' env env' := fun name hname => h name (hsubset hname)

theorem Supplies.mono {names' : List String} (h : Supplies names env) (hsubset : names' ⊆ names) :
    Supplies names' env := fun name hname => h name (hsubset hname)

/-- A new binding hides whatever two environments led to before. -/
theorem AgreesOn.bind {name : String} (h : AgreesOn (names.filter (· ≠ name)) env env')
    (v : Value α) : AgreesOn names (env.bind name v) (env'.bind name v) := by
  intro other hother
  rw [get?_bind, get?_bind]
  split
  · rfl
  · next hne => exact h other (List.mem_filter.2 ⟨hother, decide_eq_true hne⟩)

/-- The older of two bindings of one name is hidden. -/
theorem agreesOn_bind_bind (names : List String) (env : Env α) (name : String) (v w : Value α) :
    AgreesOn names ((env.bind name v).bind name w) (env.bind name w) := by
  intro other _
  simp only [get?_bind]
  split <;> rfl

/-- Bindings of different names can change places. -/
theorem agreesOn_bind_comm (names : List String) (env : Env α) {x y : String} (hne : x ≠ y)
    (v w : Value α) : AgreesOn names ((env.bind x v).bind y w) ((env.bind y w).bind x v) := by
  intro other _
  simp only [get?_bind]
  by_cases hx : other = x
  · subst hx
    rw [if_neg hne, if_pos rfl, if_pos rfl]
  · rw [if_neg hx, if_neg hx]

/-- A binding is not seen by those who do not look for its name. -/
theorem agreesOn_bind {name : String} (hname : name ∉ names) (env : Env α) (v : Value α) :
    AgreesOn names (env.bind name v) env := by
  intro other hother
  rw [get?_bind, if_neg]
  rintro rfl
  exact hname hother

end Env

/-! ## Evaluation -/

namespace Expr

/-- A complete tree has a list of its free names. -/
theorem exists_freeNames {e : Expr α} (h : e.isComplete = true) :
    ∃ names, e.freeNames = .ok names ∧ ∀ name, name ∈ names ↔ name ∈ e.free := by
  refine ⟨_, if_pos h, ?_⟩
  simp [List.mem_mergeSort, List.mem_eraseDups]

variable [Scalar α] {e : Expr α} {env env' : Env α}

/-- Environments that agree on the free names of a tree give it the same value or fault. -/
theorem result_eval_congr (h : Env.AgreesOn e.free env env') :
    (e.eval env).result = (e.eval env').result := by
  induction e generalizing env env' with
  | literal v span => rw [eval, eval, Traced.result_call, Traced.result_call]
  | var name span =>
    have hname := h name (List.mem_singleton_self name)
    rw [eval, eval, Traced.result_call, Traced.result_call, Env.lookup, Env.lookup, hname]
  | intersect a b span iha ihb =>
    have ha := iha (h.mono (List.subset_append_left _ _))
    have hb := ihb (h.mono (List.subset_append_right _ _))
    simp only [eval, Traced.result_call, Traced.result_bind, ha, hb]
  | bind name a b span iha ihb =>
    have ha := iha (h.mono (List.subset_append_left _ _))
    -- the environments of the body agree on the new name too, whatever it led to before
    have hb (v : Value α) : (b.eval (env.bind name v)).result = (b.eval (env'.bind name v)).result :=
      ihb ((h.mono (List.subset_append_right _ _)).bind v)
    simp only [eval, Traced.result_call, Traced.result_bind, ha, hb]
  | shift dx dy a span ih => simp only [eval, Traced.result_call, Traced.result_bind, ih h]
  | placeholder => rw [eval, eval, Traced.result_call, Traced.result_call]

/-- Evaluating a tree has one result, whatever the level is. -/
theorem ends_evaluateIn (he : e.IsConcrete) (henv : env.Supplies e.free) :
    (e.evaluateIn (some env)).Ends (e.eval env).result := by
  have hserves : (Discipline.steady α).Serves env e.free := by
    intro name hname span
    rw [Env.lookup]
    cases hget : env.get? name with
    | none => exact .fail _
    | some v => exact .pure (henv name hname v hget).obeys
  have hsteady := (Discipline.run_evaluateIn (some env) he.obeys hserves).steady
  have hends := hsteady.ends
  rwa [evaluateIn, Traced.result_call] at hends

/-- Evaluating a tree ends with a value if every free name leads to one, and else at a free name
that leads to nothing. -/
theorem result_eval_cases (he : e.IsConcrete) (henv : env.Supplies e.free) :
    (∃ v, (e.eval env).result = .ok v) ∧ (∀ name ∈ e.free, env.get? name ≠ none) ∨
      ∃ name span, (e.eval env).result = .error (.unbound name span) ∧
        name ∈ e.free ∧ env.get? name = none := by
  -- the names that count as bound are those that lead to something
  let bound := e.free.filter fun name => (env.get? name).isSome
  have hanswers : Answers .unbound Value.IsConcrete (e.loose bound) (e.eval env).result := by
    apply answers_eval he
    · intro name hname hfree
      by_contra hsome
      exact hfree (List.mem_filter.2 ⟨hname, Option.isSome_iff_ne_none.2 hsome⟩)
    · intro name hname hmem
      obtain ⟨v, hv⟩ := Option.isSome_iff_exists.1 (List.mem_filter.1 hmem).2
      exact ⟨v, hv, henv name hname v hv⟩
  have hmem {name : String} : name ∈ (e.loose bound).map Prod.fst ↔
      name ∈ e.free ∧ env.get? name = none := by
    rw [map_fst_loose, List.mem_filter, decide_eq_true_iff, List.mem_filter, not_and,
      Bool.not_eq_true, Option.isSome_eq_false_iff, Option.isNone_iff_eq_none]
    exact ⟨fun h => ⟨h.1, h.2 h.1⟩, fun h => ⟨h.1, fun _ => h.2⟩⟩
  cases hloose : e.loose bound with
  | nil =>
    rw [hloose] at hanswers hmem
    obtain ⟨v, hv, _⟩ := hanswers
    refine .inl ⟨⟨v, hv⟩, fun name hname hmissing => ?_⟩
    exact List.not_mem_nil (hmem.2 ⟨hname, hmissing⟩)
  | cons occurrence more =>
    rw [hloose] at hanswers hmem
    exact .inr ⟨occurrence.1, occurrence.2, hanswers, hmem.1 List.mem_cons_self⟩

theorem settled_eval (he : e.IsConcrete) (henv : env.Supplies e.free) :
    Settled (e.eval env).result := by
  obtain ⟨⟨v, hv⟩, -⟩ | ⟨name, span, hfault, -⟩ := result_eval_cases he henv
  · rw [hv]
    exact .value v
  · rw [hfault]
    exact .unbound name span

end Expr

/-- Evaluating a tree depends only on what its free names lead to: environments that agree on them
give it one value, or one fault, which is that of an unbound name. There is a fault exactly if a free
name leads to nothing. -/
theorem evaluate_free_names [Scalar α] (e : Expr α) (he : e.IsConcrete) (env env' : Env α)
    (henv : env.Supplies e.free) (hagree : Env.AgreesOn e.free env env') :
    ∃ names result, e.freeNames = .ok names ∧ (∀ name, name ∈ names ↔ name ∈ e.free) ∧
      (e.evaluateIn (some env)).Ends result ∧ (e.evaluateIn (some env')).Ends result ∧
      Settled result ∧
      ((∃ fault, result = .error fault) ↔ ∃ name ∈ names, env.get? name = none) := by
  obtain ⟨names, hnames, hmem⟩ := Expr.exists_freeNames he.isComplete
  have henv' : env'.Supplies e.free := by
    intro name hname v hv
    exact henv name hname v ((hagree name hname).trans hv)
  have hends' := Expr.ends_evaluateIn he henv'
  rw [← Expr.result_eval_congr hagree] at hends'
  refine ⟨names, (e.eval env).result, hnames, hmem, Expr.ends_evaluateIn he henv, hends',
    Expr.settled_eval he henv, ?_⟩
  simp only [hmem]
  obtain ⟨⟨v, hv⟩, hall⟩ | ⟨name, span, hfault, hname, hmissing⟩ := Expr.result_eval_cases he henv
  · apply iff_of_false
    · rintro ⟨fault, hfault⟩
      rw [hv] at hfault
      cases hfault
    · rintro ⟨name, hname, hmissing⟩
      exact hall name hname hmissing
  · exact iff_of_true ⟨_, hfault⟩ ⟨name, hname, hmissing⟩

/-- A tree that binds a name again in the value of another binding and uses two names from
outside. -/
def Expr.outward : Expr Float :=
  .bind "a" (.bind "c" (.var "b" (some ⟨1, 9⟩)) (.var "c" none) none)
    (.intersect (.var "a" none) (.shift 1 (-2) (.var "d" (some ⟨2, 3⟩)) none) none) none

/-- An environment with a hidden binding of `b`, and a placeholder under a name that is bound
again. -/
def Env.crowded : Env Float :=
  ⟨[("b", .point ⟨0, 1⟩), ("a", .placeholder), ("b", .empty)]⟩

/-- An environment that is like it as far as `b` and `d` go. -/
def Env.sparse : Env Float := ⟨[("c", .vertical ⟨3⟩), ("b", .point ⟨0, 1⟩)]⟩

theorem evaluate_free_names_outward :
    Expr.outward.IsConcrete ∧ Env.crowded.Supplies Expr.outward.free ∧
      Env.AgreesOn Expr.outward.free .crowded .sparse ∧
      ∃ names result, Expr.outward.freeNames = .ok names ∧
        (∀ name, name ∈ names ↔ name ∈ Expr.outward.free) ∧
        (Expr.outward.evaluateIn (some .crowded)).Ends result ∧
        (Expr.outward.evaluateIn (some .sparse)).Ends result ∧ Settled result ∧
        ((∃ fault, result = .error fault) ↔ ∃ name ∈ names, Env.crowded.get? name = none) := by
  have hfree : Expr.outward.free = ["b", "d"] := by decide
  have hconcrete : Expr.outward.IsConcrete := ⟨⟨trivial, trivial⟩, trivial, trivial⟩
  have hsupplies : Env.crowded.Supplies Expr.outward.free := by
    rw [hfree]
    intro name hname v hv
    simp only [List.mem_cons, List.not_mem_nil, or_false] at hname
    rcases hname with rfl | rfl
    · cases hv
      nofun
    · cases hv
  have hagree : Env.AgreesOn Expr.outward.free .crowded .sparse := by
    rw [hfree]
    intro name hname
    simp only [List.mem_cons, List.not_mem_nil, or_false] at hname
    rcases hname with rfl | rfl <;> rfl
  exact ⟨hconcrete, hsupplies, hagree, evaluate_free_names _ hconcrete _ _ hsupplies hagree⟩

end Planar
