import Planar.Proofs.Run.Discipline

/-!
# Evaluation at different levels

A run is steady if the level from which events are wanted decides about nothing but which events are
reported. Evaluation is steady, and it fails only where a name is unbound.

* `Traced.events_bind`, `Traced.exists_events_call` — the events of sequences and calls;
* `Traced.Steady` — the level of a run only filters its events;
* `Traced.Yields` — a run yields a result whatever the level is;
* `Discipline.steady`, `Discipline.total` — steadiness and success as disciplines;
* `Expr.normalize_fst`, `Expr.evaluateIn_fst` — normalizing and evaluating have the same result at
  every level;
* `Value.exists_intersect`, `Value.exists_shift` — values can be intersected and moved.
-/

namespace Planar

variable {α β γ : Type}

/-- The event that ends a call, by the result of its body. -/
def Event.ending (routine : Routine) (view : β → Datum α) : Except Fault β → Event α
  | .ok b => .leave routine (view b)
  | .error _ => .failed routine

namespace Traced

/-- A sequence that yields a result has done so in both of its parts. -/
theorem exists_of_result_bind {run : Traced α β} {next : β → Traced α γ} {c : γ}
    (h : (run >>= next).result = .ok c) : ∃ b, run.result = .ok b ∧ (next b).result = .ok c := by
  rw [result_bind] at h
  cases hrun : run.result with
  | error fault =>
    rw [hrun] at h
    cases h
  | ok b =>
    rw [hrun] at h
    exact ⟨b, rfl, h⟩

/-- A call of which everything can be shown reports its beginning and its end around what its body
reports. -/
theorem call_debug {routine : Routine} {arguments : List (Argument α)} {view : β → Datum α}
    {run : Traced α β} (harguments : arguments.all (·.datum.isShowable) = true)
    (hview : ∀ b, (run .debug).1 = .ok b → (view b).isShowable = true) :
    call routine arguments view run .debug =
      ((run .debug).1, .enter routine arguments :: (run .debug).2 ++
        [Event.ending routine view (run .debug).1]) := by
  cases hdebug : run .debug with
  | mk first events =>
    rw [hdebug] at hview
    cases first with
    | error fault => simp [call, Level.admits, Event.ending, harguments, hdebug]
    | ok b => simp [call, Level.admits, Event.ending, harguments, hdebug, hview b rfl]

/-- What a sequence reports when every event is wanted: the events of its first part, and those of
its second part if it comes to that. -/
theorem events_bind {run : Traced α β} {next : β → Traced α γ} :
    ((run >>= next) .debug).2 = (run .debug).2 ++
      match (run .debug).1 with
      | .ok b => (next b .debug).2
      | .error _ => [] := by
  show (andThen run next .debug).2 = _
  unfold andThen
  cases run .debug with
  | mk result events => cases result <;> simp

/-- A call whose arguments can be shown reports that it begins, then what its body reports, and then
no further beginning. -/
theorem exists_events_call (routine : Routine) {arguments : List (Argument α)}
    (view : β → Datum α) (run : Traced α β) (h : arguments.all (·.datum.isShowable) = true) :
    ∃ endings, (call routine arguments view run .debug).2 =
        .enter routine arguments :: (run .debug).2 ++ endings ∧
      ∀ event ∈ endings, ∀ other arguments, event ≠ .enter other arguments := by
  unfold call
  rw [if_pos (by decide), if_pos h]
  cases run .debug with
  | mk result events =>
    cases result with
    | error fault => exact ⟨[.failed routine], rfl, by simp⟩
    | ok b =>
      by_cases hview : (view b).isShowable
      · exact ⟨[.leave routine (view b)], by simp [hview], by simp⟩
      · exact ⟨[], by simp [hview], by simp⟩

/-- A sequence that yields a result when every event is wanted has done so in both of its parts. -/
theorem exists_of_debug_bind {run : Traced α β} {next : β → Traced α γ} {c : γ}
    (h : ((run >>= next) .debug).1 = .ok c) :
    ∃ b, (run .debug).1 = .ok b ∧ (next b .debug).1 = .ok c := by
  have h : (andThen run next .debug).1 = .ok c := h
  unfold andThen at h
  cases hrun : run .debug with
  | mk result events =>
    rw [hrun] at h
    cases result with
    | error fault => cases h
    | ok b => exact ⟨b, rfl, h⟩

/-- A call that yields a result when every event is wanted yields that of its body. -/
theorem debug_of_call {routine : Routine} {arguments : List (Argument α)} {view : β → Datum α}
    {run : Traced α β} {b : β} (h : (call routine arguments view run .debug).1 = .ok b) :
    (run .debug).1 = .ok b := by
  unfold call at h
  rw [if_pos (by decide)] at h
  split at h
  · cases hrun : run .debug with
    | mk result events =>
      rw [hrun] at h
      cases result with
      | error fault => cases h
      | ok c =>
        dsimp only at h
        split at h
        · exact h
        · cases h
  · cases h

/-- Whether a run has the same result at every level, and reports at each of them the wanted ones
of the same events. -/
def Steady (run : Traced α β) : Prop :=
  ∀ level, run level =
    ((run .debug).1, (run .debug).2.filter fun event => level.admits event.level)

namespace Steady

variable {run : Traced α β}

theorem fst_eq (h : run.Steady) (level : Level) : (run level).1 = run.result := by
  rw [result, h level, h .warning]

theorem pure (b : β) : (Pure.pure b : Traced α β).Steady := fun _ => rfl

theorem fail (fault : Fault) : (Traced.fail fault : Traced α β).Steady := fun _ => rfl

theorem bind {next : β → Traced α γ} (h : run.Steady)
    (hnext : ∀ b, run.result = .ok b → (next b).Steady) : (run >>= next).Steady := by
  intro level
  have hresult := h.fst_eq .debug
  have hlevel := h level
  show andThen run next level = ((andThen run next .debug).1,
    (andThen run next .debug).2.filter fun event => level.admits event.level)
  cases hdebug : run .debug with
  | mk first events =>
    rw [hdebug] at hlevel hresult
    cases first with
    | error fault => simp only [andThen, hlevel, hdebug]
    | ok b => simp only [andThen, hlevel, hdebug, hnext b hresult.symm level, List.filter_append]

/-- A call of which everything can be shown is steady if its body is. -/
theorem call {routine : Routine} {arguments : List (Argument α)} {view : β → Datum α}
    (harguments : arguments.all (·.datum.isShowable) = true)
    (hview : ∀ b, run.result = .ok b → (view b).isShowable = true) (h : run.Steady) :
    (Traced.call routine arguments view run).Steady := by
  intro level
  rw [call_debug harguments fun b hb => hview b ((h.fst_eq .debug).symm.trans hb)]
  by_cases hlevel : level = .debug
  · -- at the lowest level every event is wanted
    subst hlevel
    rw [call_debug harguments fun b hb => hview b ((h.fst_eq .debug).symm.trans hb),
      List.filter_eq_self.2]
    intro event _
    exact decide_eq_true (Nat.zero_le _)
  · have hquiet : level.admits .debug = false := by cases level <;> simp_all <;> decide
    rw [call_quiet _ _ _ _ hlevel, h level]
    cases (run .debug).1 <;> simp [List.filter_append, Event.level, Event.ending, hquiet]

end Steady

/-- Whether a run yields a result at every level. -/
def Yields (run : Traced α β) (b : β) : Prop := ∀ level, (run level).1 = .ok b

theorem Steady.yields {run : Traced α β} {b : β} (h : run.Steady) (hresult : run.result = .ok b) :
    run.Yields b := by
  intro level
  rw [h.fst_eq level, hresult]

theorem Yields.bind {run : Traced α β} {next : β → Traced α γ} {b : β} {c : γ} (h : run.Yields b)
    (hnext : (next b).Yields c) : (run >>= next).Yields c := by
  intro level
  have hrun := h level
  have hc := hnext level
  show (andThen run next level).1 = .ok c
  cases hlevel : run level with
  | mk first events =>
    rw [hlevel] at hrun
    cases hrun
    simpa only [andThen, hlevel] using hc

/-- Whether a run is steady and what it yields has the property `Q`. -/
structure SteadyTo (run : Traced α β) (Q : β → Prop) : Prop where
  steady : run.Steady
  yields : ∀ b, run.result = .ok b → Q b

namespace SteadyTo

variable {run : Traced α β} {Q : β → Prop}

theorem pure {b : β} (h : Q b) : SteadyTo (Pure.pure b : Traced α β) Q := by
  refine ⟨.pure b, ?_⟩
  rintro _ ⟨⟩
  exact h

theorem fail (fault : Fault) : SteadyTo (Traced.fail fault : Traced α β) Q := ⟨.fail fault, nofun⟩

theorem bind {next : β → Traced α γ} {R : γ → Prop} (h : run.SteadyTo Q)
    (hnext : ∀ b, Q b → (next b).SteadyTo R) : (run >>= next).SteadyTo R := by
  refine ⟨h.steady.bind fun b hb => (hnext b (h.yields b hb)).steady, ?_⟩
  intro c hc
  obtain ⟨b, hb, hc⟩ := exists_of_result_bind hc
  exact (hnext b (h.yields b hb)).yields c hc

theorem call {routine : Routine} {arguments : List (Argument α)} {view : β → Datum α}
    (harguments : arguments.all (·.datum.isShowable) = true)
    (hview : ∀ b, Q b → (view b).isShowable = true) (h : run.SteadyTo Q) :
    (Traced.call routine arguments view run).SteadyTo Q := by
  refine ⟨.call harguments (fun b hb => hview b (h.yields b hb)) h.steady, ?_⟩
  rw [result_call]
  exact h.yields

end SteadyTo

end Traced

/-- A datum that obeys a rule can be shown. -/
theorem Datum.Obeys.isShowable {rule : Segment α → Prop} {d : Datum α} (h : d.Obeys rule) :
    d.isShowable = true := by
  cases d with
  | value v =>
    cases v with
    | placeholder => exact h.elim
    | _ => simp [Datum.isShowable, Datum.isShowableWith]
  | list items => exact h.elim
  | tuple items => exact h.elim
  | _ => simp [Datum.isShowable, Datum.isShowableWith]

theorem Argument.all_isShowable {rule : Segment α → Prop} {arguments : List (Argument α)}
    (h : ∀ a ∈ arguments, a.datum.Obeys rule) :
    arguments.all (·.datum.isShowable) = true :=
  List.all_eq_true.2 fun a ha => (h a ha).isShowable

/-- Whether every literal of a tree is one of the five kinds of set; nodes may be missing. -/
def Expr.HoldsSets : Expr α → Prop
  | literal v _ => v.IsConcrete
  | var _ _ => True
  | intersect a b _ | bind _ a b _ => a.HoldsSets ∧ b.HoldsSets
  | shift _ _ a _ => a.HoldsSets
  | placeholder => True

theorem Expr.IsConcrete.holdsSets {e : Expr α} (h : e.IsConcrete) : e.HoldsSets := by
  induction e with
  | literal v span => exact h
  | var name span => trivial
  | intersect a b span iha ihb => exact ⟨iha h.1, ihb h.2⟩
  | bind name a b span iha ihb => exact ⟨iha h.1, ihb h.2⟩
  | shift dx dy a span ih => exact ih h
  | placeholder => trivial

theorem Expr.IsConcrete.isComplete {e : Expr α} (h : e.IsConcrete) : e.isComplete = true := by
  induction e with
  | intersect a b span iha ihb => exact Bool.and_eq_true_iff.2 ⟨iha h.1, ihb h.2⟩
  | bind name a b span iha ihb => exact Bool.and_eq_true_iff.2 ⟨iha h.1, ihb h.2⟩
  | shift dx dy a span ih => exact ih h
  | placeholder => exact h.elim
  | _ => rfl

variable [Scalar α]

namespace Discipline

/-- Runs are steady. -/
def steady (α : Type) [Scalar α] : Discipline α where
  rule _ := True
  Run := Traced.SteadyTo
  pure := .pure
  bind := .bind
  call _ harguments hview hbody :=
    .call (Argument.all_isShowable harguments) (fun b hb => (hview b hb).isShowable) hbody
  clip := by
    rintro t s - - -
    have hcommon : (t.common s).Obeys fun _ => True := Segment.obeys_common fun _ _ => trivial
    rw [Value.clip_segment]
    refine .call rfl ?_ (.bind (Q := fun _ => True) (.call rfl ?_ (.pure trivial)) fun _ _ =>
      .pure hcommon)
    · intro v hv
      exact (show (Datum.value v).Obeys fun _ => True from hv).isShowable
    · intro b _
      simp [Datum.isShowable, Datum.isShowableWith]
  shift _ _ _ := trivial

/-- Runs yield a result. -/
def total (α : Type) [Scalar α] : Discipline α where
  rule _ := True
  Run run Q := ∃ b, run.result = .ok b ∧ Q b
  pure {_ b _} h := ⟨b, rfl, h⟩
  bind := by
    rintro _ _ run next Q R ⟨b, hb, hQ⟩ hnext
    rw [Traced.result_bind, hb]
    exact hnext b hQ
  call := by
    rintro _ routine arguments view body Q - - - hbody
    rwa [Traced.result_call]
  clip {t s} _ _ _ := ⟨t.common s, rfl, Segment.obeys_common fun _ _ => trivial⟩
  shift _ _ _ := trivial

end Discipline

/-! ## Normalized trees -/

/-- The tree with every literal in canonical form. -/
def Expr.normalized : Expr α → Expr α
  | literal v span => literal (v.amended?.getD v) span
  | var name span => var name span
  | intersect a b span => intersect a.normalized b.normalized span
  | bind name a b span => bind name a.normalized b.normalized span
  | shift dx dy a span => shift dx dy a.normalized span
  | placeholder => placeholder

theorem Segment.isConcrete_of_amended? {s : Segment α} {v : Value α} (h : s.amended? = some v) :
    v.IsConcrete := by
  unfold Segment.amended? at h
  split at h
  · cases h
    nofun
  · split at h
    · split at h <;> cases h
      nofun
    · split at h <;> cases h
      nofun

namespace Value

theorem isConcrete_amended {v : Value α} (h : v.IsConcrete) : (v.amended?.getD v).IsConcrete := by
  cases v with
  | segment s =>
    show (s.amended?.getD (segment s)).IsConcrete
    cases hs : s.amended? with
    | none => exact h
    | some w => exact Segment.isConcrete_of_amended? hs
  | _ => exact h

theorem steady_canonical {v : Value α} (h : v.IsConcrete) : v.canonical.Steady := by
  refine .call ?_ ?_ (.pure _)
  · simpa [Argument.value, Argument.of] using (show (Datum.value v).Obeys _ from h.obeys).isShowable
  · rintro _ ⟨⟩
    exact (show (Datum.value _).Obeys _ from (isConcrete_amended h).obeys).isShowable

theorem yields_canonical {v : Value α} (h : v.IsConcrete) :
    v.canonical.Yields (v.amended?.getD v) :=
  (steady_canonical h).yields (Traced.result_call _ _ _ _)

/-- Any two sets can be intersected. -/
theorem exists_intersect {v w : Value α} (hv : v.IsConcrete) (hw : w.IsConcrete) :
    ∃ r : Value α, (v.intersect w).result = .ok r ∧ r.IsConcrete := by
  obtain ⟨r, hresult, hr⟩ := (Discipline.total α).run_intersect hv.obeys hw.obeys
  exact ⟨r, hresult, hr.isConcrete⟩

/-- Any set can be moved. -/
theorem exists_shift {v : Value α} (hv : v.IsConcrete) (dx dy : α) :
    ∃ r : Value α, (v.shift dx dy).result = .ok r ∧ r.IsConcrete := by
  obtain ⟨r, hresult, hr⟩ := (Discipline.total α).run_shift hv.obeys dx dy
  exact ⟨r, hresult, hr.isConcrete⟩

end Value

namespace Expr

theorem IsConcrete.normalized {e : Expr α} (h : e.IsConcrete) : e.normalized.IsConcrete := by
  induction e with
  | literal v span => exact Value.isConcrete_amended h
  | var name span => trivial
  | intersect a b span iha ihb => exact ⟨iha h.1, ihb h.2⟩
  | bind name a b span iha ihb => exact ⟨iha h.1, ihb h.2⟩
  | shift dx dy a span ih => exact ih h
  | placeholder => exact h

@[simp]
theorem free_normalized (e : Expr α) : e.normalized.free = e.free := by
  induction e with
  | intersect a b span iha ihb => rw [normalized, free, iha, ihb, free]
  | bind name a b span iha ihb => rw [normalized, free, iha, ihb, free]
  | shift dx dy a span ih => exact ih
  | _ => rfl

theorem steady_canonical {e : Expr α} (h : e.HoldsSets) : e.canonical.Steady := by
  have shown {routine : Routine} {e : Expr α} {body : Traced α (Expr α)} (hbody : body.Steady) :
      (Traced.call routine [.expr e] .expr body).Steady := by
    refine .call ?_ (fun _ _ => ?_) hbody
    · simp [Argument.expr, Argument.of, Datum.isShowable, Datum.isShowableWith]
    · simp [Datum.isShowable, Datum.isShowableWith]
  induction e with
  | literal v span => exact shown ((Value.steady_canonical h).bind fun _ _ => .pure _)
  | var name span => exact shown (.pure _)
  | intersect a b span iha ihb =>
    exact shown ((iha h.1).bind fun _ _ => (ihb h.2).bind fun _ _ => .pure _)
  | bind name a b span iha ihb =>
    exact shown ((iha h.1).bind fun _ _ => (ihb h.2).bind fun _ _ => .pure _)
  | shift dx dy a span ih => exact shown ((ih h).bind fun _ _ => .pure _)
  | placeholder => exact shown (.fail _)

theorem steady_normalize {e : Expr α} (h : e.HoldsSets) : e.normalize.Steady := by
  refine .call ?_ (fun _ _ => ?_) (steady_canonical h)
  · simp [Argument.expr, Argument.of, Datum.isShowable, Datum.isShowableWith]
  · simp [Datum.isShowable, Datum.isShowableWith]

theorem result_canonical {e : Expr α} (h : e.isComplete = true) :
    e.canonical.result = .ok e.normalized := by
  induction e with
  | literal v span =>
    simp only [canonical, Value.canonical, Traced.result_call, Traced.result_bind,
      Traced.result_pure]
    rfl
  | var name span => simp [canonical, normalized]
  | intersect a b span iha ihb =>
    obtain ⟨ha, hb⟩ := Bool.and_eq_true_iff.1 h
    simp only [canonical, Traced.result_call, Traced.result_bind, Traced.result_pure, iha ha, ihb hb]
    rfl
  | bind name a b span iha ihb =>
    obtain ⟨ha, hb⟩ := Bool.and_eq_true_iff.1 h
    simp only [canonical, Traced.result_call, Traced.result_bind, Traced.result_pure, iha ha, ihb hb]
    rfl
  | shift dx dy a span ih =>
    have ha : a.isComplete = true := h
    simp only [canonical, Traced.result_call, Traced.result_bind, Traced.result_pure, ih ha]
    rfl
  | placeholder => cases h

/-- Normalizing yields the tree with every literal in canonical form. -/
theorem result_normalize {e : Expr α} (h : e.isComplete = true) :
    e.normalize.result = .ok e.normalized := by
  rw [normalize, Traced.result_call, result_canonical h]

/-- Of a tree over the five kinds of set, it does so at every level. -/
theorem normalize_fst {e : Expr α} (h : e.IsConcrete) (level : Level) :
    (e.normalize level).1 = .ok e.normalized := by
  rw [(steady_normalize h.holdsSets).fst_eq, result_normalize h.isComplete]

/-- Evaluation has the same result at every level. -/
theorem evaluateIn_fst {e : Expr α} (h : e.IsConcrete) (level : Level) :
    (e.evaluateIn none level).1 = (e.eval .empty).result := by
  have hserves : (Discipline.steady α).Serves (Option.getD none .empty) e.free := by
    intro name _ span
    exact ⟨.fail _, nofun⟩
  have hsteady := (Discipline.run_evaluateIn none h.obeys hserves).1
  rw [hsteady.fst_eq, evaluateIn, Traced.result_call]
  rfl

end Expr

end Planar
