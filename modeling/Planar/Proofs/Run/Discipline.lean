import Planar.Expr.Evaluation
import Planar.Expr.Scope

/-!
# Disciplines of runs

An evaluation is put together from a few kinds of step. A discipline is a property of runs that
passes from steps to sequences and calls, together with a rule for the segments that occur. It holds
of every intersection and of every evaluation.

* `Value.Obeys`, `Expr.Obeys` — a segment, or each segment among the literals, obeys a rule;
* `Discipline` — a property of runs that passes from steps to sequences and calls;
* `Discipline.run_intersect`, `Discipline.run_eval` — intersection and evaluation keep every
  discipline.
-/

namespace Planar

variable {α β : Type}

/-! ## Rules for segments -/

/-- Whether a value is a set whose segment, if it is one, obeys a rule. -/
def Value.Obeys (rule : Segment α → Prop) : Value α → Prop
  | segment s => rule s
  | placeholder => False
  | _ => True

/-- Whether a datum shows no value that breaks a rule; lists and tuples are not looked into. -/
def Datum.Obeys (rule : Segment α → Prop) : Datum α → Prop
  | value v => v.Obeys rule
  | list _ | tuple _ => False
  | _ => True

/-- Whether every literal of a tree obeys a rule and no node is missing. -/
def Expr.Obeys (rule : Segment α → Prop) : Expr α → Prop
  | literal v _ => v.Obeys rule
  | var _ _ => True
  | intersect a b _ | bind _ a b _ => a.Obeys rule ∧ b.Obeys rule
  | shift _ _ a _ => a.Obeys rule
  | placeholder => False

theorem Value.IsConcrete.obeys {v : Value α} (h : v.IsConcrete) : v.Obeys fun _ => True := by
  cases v with
  | placeholder => exact absurd rfl h
  | _ => trivial

theorem Value.Obeys.isConcrete {rule : Segment α → Prop} {v : Value α} (h : v.Obeys rule) :
    v.IsConcrete := by
  rintro rfl
  exact h

theorem Expr.IsConcrete.obeys {e : Expr α} (h : e.IsConcrete) : e.Obeys fun _ => True := by
  induction e with
  | literal v span => exact Value.IsConcrete.obeys h
  | var name span => trivial
  | intersect a b span iha ihb => exact ⟨iha h.1, ihb h.2⟩
  | bind name a b span iha ihb => exact ⟨iha h.1, ihb h.2⟩
  | shift dx dy a span ih => exact ih h
  | placeholder => exact h

/-- Whether a value is nothing or a point. -/
def Value.IsDot : Value α → Prop
  | empty => True
  | point _ => True
  | _ => False

theorem Value.IsDot.obeys {rule : Segment α → Prop} {v : Value α} (h : v.IsDot) : v.Obeys rule := by
  cases v with
  | empty => trivial
  | point p => trivial
  | _ => exact h.elim

theorem Value.isDot_ite {c : Prop} [Decidable c] {p : Point α} :
    (if c then point p else empty).IsDot := by
  split <;> trivial

theorem Straight.obeys_toValue {rule : Segment α → Prop} (l : Straight α) :
    l.toValue.Obeys rule := by
  cases l <;> trivial

variable [Scalar α]

/-- Whether two lines can be taken for one as far as their directions go: both have a slope, or both
are vertical and close. -/
def Straight.Agrees : Straight α → Straight α → Prop
  | line _, line _ => True
  | vertical v, vertical w => Scalar.close v.x w.x = true
  | _, _ => False

/-- What a line can share with another: nothing, a point, or all of it if the two agree. -/
def Straight.Shares (l k : Straight α) (v : Value α) : Prop := v.IsDot ∨ v = l.toValue ∧ l.Agrees k

/-- What a segment can share with a line: nothing, a point, or all of it if the lines agree. -/
def Segment.Shares (s : Segment α) (l : Straight α) (v : Value α) : Prop :=
  v.IsDot ∨ v = .segment s ∧ s.support.Agrees l

theorem Line.shares_atLine (l k : Line α) : (Straight.line l).Shares (.line k) (l.atLine k) := by
  unfold Line.atLine
  split
  · split
    · exact .inr ⟨rfl, trivial⟩
    · exact .inl trivial
  · exact .inl trivial

theorem Vertical.shares_atVertical (v w : Vertical α) :
    (Straight.vertical v).Shares (.vertical w) (v.atVertical w) := by
  unfold Vertical.atVertical
  split
  case isTrue h => exact .inr ⟨rfl, h⟩
  case isFalse => exact .inl trivial

theorem Straight.Shares.obeys {rule : Segment α → Prop} {l k : Straight α} {v : Value α}
    (h : l.Shares k v) : v.Obeys rule := by
  rcases h with hdot | ⟨rfl, _⟩
  · exact hdot.obeys
  · exact l.obeys_toValue

theorem Segment.Shares.obeys {rule : Segment α → Prop} {s : Segment α} {l : Straight α}
    {v : Value α} (h : s.Shares l v) (hs : rule s) : v.Obeys rule := by
  rcases h with hdot | ⟨rfl, _⟩
  · exact hdot.obeys
  · exact hs

/-- What two segments have in common obeys a rule if it does so as a segment. -/
theorem Segment.obeys_common {rule : Segment α → Prop} {t s : Segment α}
    (h : ∀ r, t.common s = .segment r → rule r) : (t.common s).Obeys rule := by
  have obeys_overlap (upright : Bool) (first second : Segment α)
      (h : ∀ r, overlap upright first second = .segment r → rule r) :
      (overlap upright first second).Obeys rule := by
    unfold overlap at h ⊢
    split
    · trivial
    · split
      · trivial
      · split
        · exact h _ (by simp_all)
        · exact h _ (by simp_all)
  unfold common at h ⊢
  dsimp only at h ⊢
  split
  · exact obeys_overlap _ _ _ fun r hr => h r (by simp_all)
  · exact obeys_overlap _ _ _ fun r hr => h r (by simp_all)

/-- Clipping a segment to a segment is one call around the choice of an axis. -/
theorem Value.clip_segment (t s : Segment α) :
    (segment t).clip s =
      .call (.ofValue .segment .clip) [.value (segment t), .value (segment s)] .value
        (t.checkVertical >>= fun _ => pure (t.common s)) := rfl

/-! ## Disciplines -/

/-- A property of runs that passes from steps to sequences and calls: `Run run Q` is what is said of
a run whose result has the property `Q`. Clipping one segment to another has a clause of its own,
since it alone makes new segments. -/
structure Discipline (α : Type) [Scalar α] where
  rule : Segment α → Prop
  Run {β : Type} : Traced α β → (β → Prop) → Prop
  pure {β : Type} {b : β} {Q : β → Prop} : Q b → Run (Pure.pure b) Q
  bind {β γ : Type} {run : Traced α β} {next : β → Traced α γ} {Q : β → Prop} {R : γ → Prop} :
    Run run Q → (∀ b, Q b → Run (next b) R) → Run (run >>= next) R
  call {β : Type} {routine : Routine} {arguments : List (Argument α)} {view : β → Datum α}
    {body : Traced α β} {Q : β → Prop} :
    routine ≠ .ofValue .segment .clip → (∀ a ∈ arguments, a.datum.Obeys rule) →
      (∀ b, Q b → (view b).Obeys rule) → Run body Q → Run (.call routine arguments view body) Q
  clip {t s : Segment α} : t.support.Agrees s.support → rule t → rule s →
    Run ((Value.segment t).clip s) (Value.Obeys rule)
  shift {s : Segment α} (dx dy : α) : rule s → rule ⟨s.x₁ + dx, s.y₁ + dy, s.x₂ + dx, s.y₂ + dy⟩

namespace Discipline

variable (D : Discipline α)

/-- Whether a value obeys the rule of a discipline. -/
abbrev Fits (v : Value α) : Prop := v.Obeys D.rule

theorem imp {run : Traced α β} {Q R : β → Prop} (h : D.Run run Q) (himp : ∀ b, Q b → R b) :
    D.Run run R := by
  have hbind := D.bind h fun b hb => D.pure (himp b hb)
  rwa [bind_pure] at hbind

/-- A call on two values that yields a value. -/
theorem call_pair {routine : Routine} {v w : Value α} {body : Traced α (Value α)}
    {Q : Value α → Prop} (hroutine : routine ≠ .ofValue .segment .clip) (hv : D.Fits v)
    (hw : D.Fits w) (hQ : ∀ r, Q r → D.Fits r) (hbody : D.Run body Q) :
    D.Run (.call routine [.value v, .value w] .value body) Q := by
  refine D.call hroutine ?_ hQ hbody
  intro a ha
  rcases List.mem_cons.1 ha with rfl | ha
  · exact hv
  · obtain rfl := List.mem_singleton.1 ha
    exact hw

/-! ## Points and lines -/

theorem run_meetPoint (p q : Point α) : D.Run (p.meetPoint q) Value.IsDot := by
  refine D.call_pair nofun trivial trivial (fun _ h => h.obeys) (D.pure ?_)
  exact Value.isDot_ite

theorem run_point_meetLine (p : Point α) (l : Line α) : D.Run (p.meetLine l) Value.IsDot := by
  refine D.call_pair nofun trivial trivial (fun _ h => h.obeys) (D.pure ?_)
  exact Value.isDot_ite

theorem run_point_meetVertical (p : Point α) (v : Vertical α) :
    D.Run (p.meetVertical v) Value.IsDot := by
  refine D.call_pair nofun trivial trivial (fun _ h => h.obeys) (D.pure ?_)
  exact Value.isDot_ite

theorem run_straight_meetPoint (l : Straight α) (p : Point α) :
    D.Run (l.meetPoint p) Value.IsDot := by
  cases l with
  | line l =>
    exact D.call_pair nofun trivial trivial (fun _ h => h.obeys) (D.run_point_meetLine p l)
  | vertical v =>
    exact D.call_pair nofun trivial trivial (fun _ h => h.obeys) (D.run_point_meetVertical p v)

theorem run_meetLine (l : Straight α) (k : Line α) : D.Run (l.meetLine k) (l.Shares (.line k)) := by
  cases l with
  | line l =>
    exact D.call_pair nofun trivial trivial (fun _ h => h.obeys) (D.pure (l.shares_atLine k))
  | vertical v =>
    refine D.call_pair nofun trivial trivial (fun _ h => h.obeys) ?_
    exact D.call_pair nofun trivial trivial (fun _ h => h.obeys) (D.pure (.inl trivial))

theorem run_meetVertical (l : Straight α) (v : Vertical α) :
    D.Run (l.meetVertical v) (l.Shares (.vertical v)) := by
  cases l with
  | line l =>
    exact D.call_pair nofun trivial trivial (fun _ h => h.obeys) (D.pure (.inl trivial))
  | vertical w =>
    exact D.call_pair nofun trivial trivial (fun _ h => h.obeys) (D.pure (w.shares_atVertical v))

/-! ## Segments -/

section Segments

variable {s t : Segment α}

theorem run_checkVertical (hs : D.rule s) : D.Run s.checkVertical fun _ => True := by
  refine D.call nofun ?_ (fun _ _ => trivial) (D.pure trivial)
  intro a ha
  obtain rfl := List.mem_singleton.1 ha
  exact hs

theorem run_lineThrough (hs : D.rule s) : D.Run s.lineThrough (· = s.support) := by
  refine D.call nofun ?_ (fun l _ => l.obeys_toValue) ?_
  · intro a ha
    obtain rfl := List.mem_singleton.1 ha
    exact hs
  · exact D.bind (D.run_checkVertical hs) fun _ _ => D.pure rfl

theorem run_clip_dot {v : Value α} (hv : v.IsDot) (hs : D.rule s) :
    D.Run (v.clip s) Value.IsDot := by
  cases v with
  | empty => exact D.call_pair nofun trivial hs (fun _ h => h.obeys) (D.pure trivial)
  | point p =>
    refine D.call_pair nofun trivial hs (fun _ h => h.obeys) (D.pure ?_)
    exact Value.isDot_ite
  | _ => exact hv.elim

/-- Clipping what the line of a segment shares with another line. -/
theorem run_clip_support {l : Straight α} {v : Value α} (hv : s.support.Shares l v)
    (hs : D.rule s) : D.Run (v.clip s) (s.Shares l) := by
  rcases hv with hdot | ⟨rfl, hagrees⟩
  · exact D.imp (D.run_clip_dot hdot hs) fun _ => .inl
  · have hshares : s.Shares l (.segment s) := .inr ⟨rfl, hagrees⟩
    cases s.support with
    | line l => exact D.call_pair nofun trivial hs (fun _ h => h.obeys hs) (D.pure hshares)
    | vertical v => exact D.call_pair nofun trivial hs (fun _ h => h.obeys hs) (D.pure hshares)

theorem run_meetBy {v : Value α} {intersect : Straight α → Traced α (Value α)}
    {Q R : Value α → Prop} (hs : D.rule s) (hv : D.Fits v)
    (hintersect : D.Run (intersect s.support) Q) (hclip : ∀ r, Q r → D.Run (r.clip s) R)
    (hR : ∀ r, R r → D.Fits r) : D.Run (s.meetBy v intersect) R := by
  refine D.call_pair nofun hv hs hR (D.bind (D.run_lineThrough hs) ?_)
  rintro _ rfl
  exact D.bind hintersect hclip

theorem run_point_meetSegment (p : Point α) (hs : D.rule s) :
    D.Run (p.meetSegment s) Value.IsDot := by
  refine D.run_meetBy hs trivial ?_ (fun _ hdot => D.run_clip_dot hdot hs) fun _ h => h.obeys
  refine D.call_pair nofun trivial (s.support.obeys_toValue) (fun _ h => h.obeys) ?_
  exact D.run_straight_meetPoint s.support p

theorem run_meetSegment (l : Straight α) (hs : D.rule s) :
    D.Run (l.meetSegment s) (s.Shares l) := by
  cases l with
  | line l =>
    refine D.run_meetBy hs trivial ?_ (fun _ h => D.run_clip_support h hs) fun _ h => h.obeys hs
    exact D.call_pair nofun trivial s.support.obeys_toValue (fun _ h => h.obeys)
      (D.run_meetLine s.support l)
  | vertical v =>
    refine D.run_meetBy hs trivial ?_ (fun _ h => D.run_clip_support h hs) fun _ h => h.obeys hs
    exact D.call_pair nofun trivial s.support.obeys_toValue (fun _ h => h.obeys)
      (D.run_meetVertical s.support v)

theorem run_segments (ht : D.rule t) (hs : D.rule s) : D.Run (t.meetSegment s) D.Fits := by
  refine D.run_meetBy (Q := t.Shares s.support) hs ht ?_ ?_ fun _ h => h
  · exact D.call_pair nofun ht s.support.obeys_toValue (fun _ h => h.obeys ht)
      (D.run_meetSegment s.support ht)
  · rintro r (hdot | ⟨rfl, hagrees⟩)
    · exact D.imp (D.run_clip_dot hdot hs) fun _ h => h.obeys
    · exact D.clip hagrees ht hs

end Segments

/-! ## All kinds -/

/-- Two values that fit meet in a value that fits. -/
theorem run_dispatch {a b : Value α} (ha : D.Fits a) (hb : D.Fits b) :
    D.Run (a.dispatch b) D.Fits := by
  -- a result is a point or nothing, one of two lines, or a part of a segment that obeys the rule
  have dot {run : Traced α (Value α)} (h : D.Run run Value.IsDot) : D.Run run D.Fits :=
    D.imp h fun _ h => h.obeys
  have lines {run : Traced α (Value α)} {l k : Straight α} (h : D.Run run (l.Shares k)) :
      D.Run run D.Fits :=
    D.imp h fun _ h => h.obeys
  have part {run : Traced α (Value α)} {s : Segment α} {l : Straight α} (hs : D.rule s)
      (h : D.Run run (s.Shares l)) : D.Run run D.Fits :=
    D.imp h fun _ h => h.obeys hs
  have shown {owner : ValueOwner} {step : ValueStep} {v w : Value α} {body : Traced α (Value α)}
      (hstep : step ≠ .clip) (hv : D.Fits v) (hw : D.Fits w) (hbody : D.Run body D.Fits) :
      D.Run (.call (.ofValue owner step) [.value v, .value w] .value body) D.Fits :=
    D.call_pair (fun h => hstep (Routine.ofValue.inj h).2) hv hw (fun _ h => h) hbody
  refine shown nofun ha hb ?_
  cases a with
  | placeholder => exact ha.elim
  | empty => exact shown nofun hb trivial (D.pure trivial)
  | point p =>
    cases b with
    | placeholder => exact hb.elim
    | empty => exact shown nofun trivial trivial (D.pure trivial)
    | point q => exact dot (D.run_meetPoint q p)
    | line l => exact dot (D.run_straight_meetPoint (.line l) p)
    | vertical v => exact dot (D.run_straight_meetPoint (.vertical v) p)
    | segment s => exact shown nofun hb trivial (dot (D.run_point_meetSegment p hb))
  | line l =>
    cases b with
    | placeholder => exact hb.elim
    | empty => exact shown nofun trivial trivial (D.pure trivial)
    | point p => exact dot (D.run_point_meetLine p l)
    | line k => exact lines (D.run_meetLine (.line k) l)
    | vertical v => exact lines (D.run_meetLine (.vertical v) l)
    | segment s => exact shown nofun hb trivial (part hb (D.run_meetSegment (.line l) hb))
  | vertical v =>
    cases b with
    | placeholder => exact hb.elim
    | empty => exact shown nofun trivial trivial (D.pure trivial)
    | point p => exact dot (D.run_point_meetVertical p v)
    | line l => exact lines (D.run_meetVertical (.line l) v)
    | vertical w => exact lines (D.run_meetVertical (.vertical w) v)
    | segment s => exact shown nofun hb trivial (part hb (D.run_meetSegment (.vertical v) hb))
  | segment s =>
    cases b with
    | placeholder => exact hb.elim
    | empty => exact shown nofun trivial ha (D.pure trivial)
    | point p => exact dot (D.run_point_meetSegment p ha)
    | line l => exact part ha (D.run_meetSegment (.line l) ha)
    | vertical v => exact part ha (D.run_meetSegment (.vertical v) ha)
    | segment t => exact D.run_segments hb ha

theorem run_intersect {a b : Value α} (ha : D.Fits a) (hb : D.Fits b) :
    D.Run (a.intersect b) D.Fits :=
  D.call_pair nofun ha hb (fun _ h => h) (D.run_dispatch ha hb)

theorem run_shift {v : Value α} (hv : D.Fits v) (dx dy : α) : D.Run (v.shift dx dy) D.Fits := by
  refine D.call (fun h => nomatch (Routine.ofValue.inj h).2) ?_ (fun _ h => h) ?_
  · intro a ha
    simp only [List.mem_cons, List.not_mem_nil, or_false] at ha
    rcases ha with rfl | rfl | rfl
    · exact hv
    · trivial
    · trivial
  · cases v with
    | segment s => exact D.pure (Q := D.Fits) (D.shift dx dy hv)
    | placeholder => exact hv.elim
    | _ => exact D.pure (Q := D.Fits) trivial

/-! ## Evaluation -/

/-- Whether looking up one of the names keeps to a discipline. -/
def Serves (env : Env α) (names : List String) : Prop :=
  ∀ name ∈ names, ∀ span, D.Run (.ofExcept (env.lookup name span)) D.Fits

variable {D}

theorem Serves.bind {env : Env α} {name : String} {names : List String} {v : Value α}
    (h : D.Serves env (names.filter (· ≠ name))) (hv : D.Fits v) :
    D.Serves (env.bind name v) names := by
  intro x hx span
  by_cases hname : x = name
  · have hlookup : (env.bind name v).lookup x span = .ok v := by
      rw [Env.lookup, Env.get?_bind, if_pos hname]
    rw [hlookup]
    exact D.pure hv
  · have hlookup : (env.bind name v).lookup x span = env.lookup x span := by
      rw [Env.lookup, Env.get?_bind, if_neg hname, Env.lookup]
    rw [hlookup]
    exact h x (List.mem_filter.2 ⟨hx, decide_eq_true hname⟩) span

theorem run_eval {e : Expr α} {env : Env α} (he : e.Obeys D.rule) (henv : D.Serves env e.free) :
    D.Run (e.eval env) D.Fits := by
  have node {owner : NodeOwner} {e : Expr α} {env : Env α} {body : Traced α (Value α)}
      (hbody : D.Run body D.Fits) :
      D.Run (.call (.ofNode owner .evaluate) [.expr e, .of (.env env)] .value body) D.Fits := by
    refine D.call nofun ?_ (fun _ h => h) hbody
    intro a ha
    rcases List.mem_cons.1 ha with rfl | ha
    · trivial
    · obtain rfl := List.mem_singleton.1 ha
      trivial
  induction e generalizing env with
  | literal v span => exact node (D.pure he)
  | var name span => exact node (henv name (List.mem_singleton_self name) span)
  | intersect a b span iha ihb =>
    refine node (D.bind (iha he.1 fun x hx => henv x (List.mem_append_left _ hx)) ?_)
    intro v hv
    refine D.bind (ihb he.2 fun x hx => henv x (List.mem_append_right _ hx)) ?_
    intro w hw
    exact D.run_intersect hv hw
  | bind name a b span iha ihb =>
    refine node (D.bind (iha he.1 fun x hx => henv x (List.mem_append_left _ hx)) ?_)
    intro v hv
    exact ihb he.2 (Serves.bind (fun x hx => henv x (List.mem_append_right _ hx)) hv)
  | shift dx dy a span ih =>
    refine node (D.bind (ih he henv) ?_)
    intro v hv
    exact D.run_shift hv dx dy
  | placeholder => exact he.elim

theorem run_evaluateIn {e : Expr α} (env? : Option (Env α)) (he : e.Obeys D.rule)
    (henv : D.Serves (env?.getD .empty) e.free) : D.Run (e.evaluateIn env?) D.Fits := by
  refine D.call nofun ?_ (fun _ h => h) (run_eval he henv)
  intro a ha
  rcases List.mem_cons.1 ha with rfl | ha
  · trivial
  · obtain ⟨env, _, rfl⟩ := List.mem_map.1 ha
    trivial

end Discipline

end Planar
