import Planar.Proofs.Drawing.Discipline
import Planar.Proofs.Run.Levels

/-!
# Conventions of tracing

A convention is a property of runs that may also fail: it holds of every step and passes to
sequences and to the calls of which everything can be shown. Where every value is one of the five
kinds of set, everything can be shown, so that evaluating a tree, listing its literals, intersecting
two sets and drawing labelled sets keep to every convention.

* `Convention` — a property of runs that passes from steps to sequences and calls;
* `Convention.Calls` — a run is the call of a routine whose body keeps to a convention;
* `Convention.calls_intersect`, `Convention.calls_literals`, `Convention.calls_evaluate`,
  `Convention.calls_picture` — the runs that keep to every convention.
-/

namespace Planar

variable {α β : Type}

/-! ## What can be shown -/

namespace Datum

theorem areShowable_of_forall {items : List (Datum α)}
    (h : ∀ d ∈ items, d.isShowable = true) (limit : Nat) : areShowable limit items = true := by
  induction items generalizing limit with
  | nil => cases limit <;> simp [areShowable]
  | cons d items ih =>
    cases limit with
    | zero => simp [areShowable]
    | succ limit =>
      rw [areShowable, Bool.and_eq_true]
      exact ⟨h d List.mem_cons_self, ih (fun d hd => h d (List.mem_cons_of_mem _ hd)) limit⟩

theorem isShowable_list {items : List (Datum α)} (h : ∀ d ∈ items, d.isShowable = true) :
    (list items).isShowable = true := by
  rw [isShowable, isShowableWith]
  exact areShowable_of_forall h itemLimit

theorem isShowable_tuple {items : List (Datum α)} (h : ∀ d ∈ items, d.isShowable = true) :
    (tuple items).isShowable = true := by
  rw [isShowable, isShowableWith]
  exact areShowable_of_forall h itemLimit

/-- A datum can be shown if every value in it is a set. -/
theorem ShowsSets.isShowable {d : Datum α} (h : d.ShowsSets) : d.isShowable = true := by
  induction h with
  | value h => exact (show (Datum.value _).Obeys _ from h.obeys).isShowable
  | list _ ih => exact isShowable_list ih
  | tuple _ ih => exact isShowable_tuple ih
  | _ => simp [Datum.isShowable, isShowableWith]

/-- A call that writes the coordinates of a point can be shown. -/
theorem isShowable_coordinate (p : Point α) (decimals : Int) :
    [Argument.of (.pair p), .of (.integer decimals)].all (·.datum.isShowable) = true := by
  simp [Argument.of, (showsSets_pair p).isShowable, (ShowsSets.integer _).isShowable]

@[simp]
theorem isShowable_expr (e : Expr α) : (expr e).isShowable = true := by
  simp [isShowable, isShowableWith]

end Datum

/-! ## Conventions -/

/-- A property of runs that holds of every step and passes to sequences and to the calls of which
everything can be shown: `Run run Q` is what is said of a run whose result, if it has one, has the
property `Q`. -/
structure Convention (α : Type) where
  Run {β : Type} : Traced α β → (β → Prop) → Prop
  pure {β : Type} {b : β} {Q : β → Prop} : Q b → Run (Pure.pure b) Q
  fail {β : Type} {Q : β → Prop} (fault : Fault) : Run (.fail fault) Q
  skipped (label : String) : Run (.report (.skipped label)) fun _ => True
  bind {β γ : Type} {run : Traced α β} {next : β → Traced α γ} {Q : β → Prop} {R : γ → Prop} :
    Run run Q → (∀ b, Q b → Run (next b) R) → Run (run >>= next) R
  call {β : Type} {routine : Routine} {arguments : List (Argument α)} {view : β → Datum α}
    {body : Traced α β} {Q : β → Prop} :
    arguments.all (·.datum.isShowable) = true → (∀ b, Q b → (view b).isShowable = true) →
      Run body Q → Run (.call routine arguments view body) Q

namespace Convention

variable (C : Convention α)

/-- Whether a run is a call of a routine of which everything can be shown and whose body keeps to a
convention. -/
def Calls (routine : Routine) (run : Traced α β) (Q : β → Prop) : Prop :=
  ∃ arguments view body, run = .call routine arguments view body ∧
    arguments.all (·.datum.isShowable) = true ∧ (∀ b, Q b → (view b).isShowable = true) ∧
    C.Run body Q

variable {C} in
theorem Calls.run {routine : Routine} {run : Traced α β} {Q : β → Prop}
    (h : C.Calls routine run Q) : C.Run run Q := by
  obtain ⟨arguments, view, body, rfl, harguments, hview, hbody⟩ := h
  exact C.call harguments hview hbody

theorem run_ofExcept (result : Except Fault β) : C.Run (.ofExcept result) fun _ => True := by
  cases result with
  | ok b => exact C.pure trivial
  | error fault => exact C.fail fault

/-! ## Literals -/

/-- Listing the literals of a tree keeps to every convention, and what is found are sets. -/
theorem calls_literals {e : Expr α} (h : e.HoldsSets) :
    C.Calls (.task .literals) e.literals fun vs => ∀ v ∈ vs, v.IsConcrete := by
  have shown {e : Expr α} {body : Traced α (List (Value α))}
      (hbody : C.Run body fun vs => ∀ v ∈ vs, v.IsConcrete) :
      C.Calls (.task .literals) (.call (.task .literals) [.expr e] .values body)
        fun vs => ∀ v ∈ vs, v.IsConcrete :=
    ⟨_, _, body, rfl, by simp [Argument.expr, Argument.of],
      fun _ hvs => (Datum.showsSets_values hvs).isShowable, hbody⟩
  have both {a b : Expr α} (ha : C.Run a.literals fun vs => ∀ v ∈ vs, v.IsConcrete)
      (hb : C.Run b.literals fun vs => ∀ v ∈ vs, v.IsConcrete) :
      C.Run (do return (← a.literals) ++ (← b.literals) : Traced α (List (Value α)))
        fun vs => ∀ v ∈ vs, v.IsConcrete := by
    refine C.bind ha fun first hfirst => C.bind hb fun second hsecond => C.pure ?_
    intro v hv
    rcases List.mem_append.1 hv with hv | hv
    · exact hfirst v hv
    · exact hsecond v hv
  induction e with
  | literal v span =>
    refine shown (C.pure ?_)
    intro w hw
    obtain rfl := List.mem_singleton.1 hw
    exact h
  | var name span => exact shown (C.pure (List.forall_mem_nil _))
  | intersect a b span iha ihb => exact shown (both (iha h.1).run (ihb h.2).run)
  | bind name a b span iha ihb => exact shown (both (iha h.1).run (ihb h.2).run)
  | shift dx dy a span ih => exact shown (ih h).run
  | placeholder => exact shown (C.fail _)

variable [Scalar α]

/-! ## Intersection and evaluation -/

/-- A convention as a discipline that asks nothing of segments. -/
def toDiscipline : Discipline α where
  rule _ := True
  Run := C.Run
  pure := C.pure
  bind := C.bind
  call _ harguments hview hbody :=
    C.call (Argument.all_isShowable harguments) (fun b hb => (hview b hb).isShowable) hbody
  clip := by
    rintro t s - - -
    have hcommon : (t.common s).Obeys fun _ => True := Segment.obeys_common fun _ _ => trivial
    rw [Value.clip_segment]
    refine C.call rfl ?_ (C.bind (Q := fun _ => True) (C.call rfl ?_ (C.pure trivial)) fun _ _ =>
      C.pure hcommon)
    · intro v hv
      exact (show (Datum.value v).Obeys fun _ => True from hv).isShowable
    · intro b _
      simp [Datum.isShowable, Datum.isShowableWith]
  shift _ _ _ := trivial

/-- Intersecting two sets keeps to every convention. -/
theorem calls_intersect {a b : Value α} (ha : a.IsConcrete) (hb : b.IsConcrete) :
    C.Calls (.task .intersect) (a.intersect b) Value.IsConcrete := by
  have hdispatch : C.Run (a.dispatch b) Value.IsConcrete :=
    C.toDiscipline.imp (C.toDiscipline.run_dispatch ha.obeys hb.obeys) fun _ h => h.isConcrete
  refine ⟨_, _, _, rfl, ?_, fun _ hv => (Datum.ShowsSets.value hv).isShowable, hdispatch⟩
  simp [Argument.value, Argument.of, (Datum.ShowsSets.value ha).isShowable,
    (Datum.ShowsSets.value hb).isShowable]

/-- A tree that can be normalized misses no node. -/
theorem run_canonical {e : Expr α} (h : e.HoldsSets) : C.Run e.canonical Expr.IsConcrete := by
  have shown {routine : Routine} {e : Expr α} {body : Traced α (Expr α)}
      (hbody : C.Run body Expr.IsConcrete) :
      C.Run (.call routine [.expr e] .expr body) Expr.IsConcrete :=
    C.call (by simp [Argument.expr, Argument.of]) (fun e _ => Datum.isShowable_expr e) hbody
  induction e with
  | literal v span =>
    have hvalue : C.Run v.canonical Value.IsConcrete := by
      refine C.call ?_ (fun _ hv => (Datum.ShowsSets.value hv).isShowable)
        (C.pure (Value.isConcrete_amended h))
      simp [Argument.value, Argument.of, (Datum.ShowsSets.value h).isShowable]
    exact shown (C.bind hvalue fun w hw => C.pure hw)
  | var name span => exact shown (C.pure trivial)
  | intersect a b span iha ihb =>
    exact shown (C.bind (iha h.1) fun m hm => C.bind (ihb h.2) fun n hn => C.pure ⟨hm, hn⟩)
  | bind name a b span iha ihb =>
    exact shown (C.bind (iha h.1) fun m hm => C.bind (ihb h.2) fun n hn => C.pure ⟨hm, hn⟩)
  | shift dx dy a span ih => exact shown (C.bind (ih h) fun m hm => C.pure hm)
  | placeholder => exact shown (C.fail _)

theorem run_evaluateIn {e : Expr α} (h : e.IsConcrete) {env? : Option (Env α)}
    (henv : env?.getD .empty = .empty) : C.Run (e.evaluateIn env?) Value.IsConcrete := by
  have hserves : C.toDiscipline.Serves (env?.getD .empty) e.free := by
    intro name _ span
    rw [henv]
    exact C.fail _
  exact C.toDiscipline.imp (Discipline.run_evaluateIn env? h.obeys hserves) fun _ h => h.isConcrete

/-- Evaluating a tree keeps to every convention. A tree with missing nodes is not evaluated, since
normalizing fails. -/
theorem calls_evaluate {e : Expr α} (h : e.HoldsSets) :
    C.Calls (.task .evaluate) e.evaluate Value.IsConcrete := by
  have hnormalize : C.Run e.normalize Expr.IsConcrete :=
    C.call (by simp [Argument.expr, Argument.of]) (fun e _ => Datum.isShowable_expr e)
      (C.run_canonical h)
  exact ⟨_, _, _, rfl, by simp [Argument.expr, Argument.of],
    fun _ hv => (Datum.ShowsSets.value hv).isShowable,
    C.bind hnormalize fun _ hn => C.run_evaluateIn hn rfl⟩

/-! ## Pictures -/

/-- A convention as a discipline of drawing to which every point is good. -/
def toDrawing (decimals : Int) : DrawingDiscipline α decimals where
  toDiscipline := C.toDiscipline
  lax _ := trivial
  Good _ := True
  draw _ harguments hview hbody :=
    C.call (List.all_eq_true.2 fun a ha => (harguments a ha).isShowable)
      (fun b hb => (hview b hb).isShowable) hbody
  coordinate _ hbody :=
    C.call (Datum.isShowable_coordinate _ _) (fun s _ => (Datum.ShowsSets.text s).isShowable) hbody
  number _ := C.run_ofExcept _

/-- Drawing labelled sets keeps to every convention. -/
theorem calls_picture (current : Settings α) {entries : List (String × Value α)}
    (h : ∀ entry ∈ entries, entry.2.IsConcrete) (highlight : List String)
    (settings? : Option (Settings α)) :
    C.Calls (.task .picture) (picture current entries highlight settings?) fun _ => True := by
  let D := C.toDrawing (settings?.getD current).decimals
  have hshapes : ∀ entry ∈ entries, D.Run (entry.2.shape
      (Window.ofValues (settings?.getD current) (entries.map (·.2)))) (D.Accepts entry.1) := by
    intro entry hentry
    refine D.imp (D.run_shape (h entry hentry) _) fun shape _ => ⟨fun _ _ => trivial, fun _ => ?_⟩
    exact C.skipped entry.1
  obtain ⟨body, hpicture, hbody⟩ :=
    D.exists_body_picture highlight h rfl rfl trivial trivial hshapes
  refine ⟨_, _, body, hpicture, ?_, fun s _ => (Datum.ShowsSets.text s).isShowable, hbody⟩
  refine List.all_eq_true.2 fun a ha => Datum.ShowsSets.isShowable ?_
  simp only [List.mem_cons, List.not_mem_nil, or_false] at ha
  rcases ha with rfl | rfl | rfl
  · exact Datum.showsSets_labelled entries
  · exact Datum.showsSets_texts highlight
  · exact Datum.showsSets_optional_settings settings?

end Convention

end Planar
