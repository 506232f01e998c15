import Mathlib.Data.List.Count
import Planar.Proofs.Run.Conventions

/-!
# Every node is visited once

Apart from steps on values, the routines that an evaluation begins can be read off the tree: each
node is normalized, in source order, and then each node is evaluated, an intersection being followed
by the intersecting of its parts. A run that fails begins the first few of these. So a bound
expression is evaluated once, however often its name is used, and no step on values goes back to
normalizing or to intersecting as a task.

* `Traced.begun`, `Traced.stops` — the routines that a run begins, and those that are not steps on
  values;
* `Traced.Follows` — a run stops at certain routines in turn, unless it fails before;
* `Value.follows_dispatch` — steps on values lead to nothing but steps on values;
* `Expr.evaluation`, `Expr.follows_eval` — where evaluating a tree stops;
* `Expr.exists_stops_evaluate` — where normalizing and evaluating a tree stop;
* `nodes_visited_once` — what is begun for each kind of node, and how often.
-/

namespace Planar

variable {α β γ : Type}

/-! ## Routines that are begun -/

/-- The routine that an event begins. -/
def Event.begun? : Event α → Option Routine
  | enter routine _ => some routine
  | _ => none

namespace Traced

/-- The routines that a run begins, in order, if every event is wanted. -/
def begun (run : Traced α β) : List Routine := (run .debug).2.filterMap Event.begun?

/-- How often a run begins a routine of a channel, given its name. -/
def entries (channel : Channel) (name : String) (run : Traced α β) : Nat :=
  run.begun.countP fun routine => routine.channel = channel ∧ routine.name = name

/-- The routines that a run begins, without the steps on values. -/
def stops (run : Traced α β) : List Routine :=
  run.begun.filter fun routine => routine.channel ≠ .values

/-- Steps on values apart, a routine is begun as often as the run stops at it. -/
theorem count_begun (run : Traced α β) {routine : Routine} (h : routine.channel ≠ .values) :
    run.begun.count routine = run.stops.count routine :=
  (List.count_filter (by simpa using h)).symm

theorem stops_bind {run : Traced α β} {next : β → Traced α γ} :
    (run >>= next).stops = run.stops ++
      match (run .debug).1 with
      | .ok b => (next b).stops
      | .error _ => [] := by
  rw [stops, begun, events_bind, List.filterMap_append, List.filter_append]
  cases (run .debug).1 <;> rfl

section Call

variable {routine : Routine} {arguments : List (Argument α)} {view : β → Datum α}
  {run : Traced α β}

theorem begun_call (h : arguments.all (·.datum.isShowable) = true) :
    (call routine arguments view run).begun = routine :: run.begun := by
  obtain ⟨endings, hevents, hendings⟩ := exists_events_call routine view run h
  have hnone : endings.filterMap Event.begun? = [] := by
    refine List.filterMap_eq_nil_iff.2 fun event hevent => ?_
    cases event with
    | enter other arguments => exact absurd rfl (hendings _ hevent other arguments)
    | _ => rfl
  rw [begun, hevents, List.filterMap_append, hnone, List.append_nil]
  rfl

theorem stops_call (h : arguments.all (·.datum.isShowable) = true) :
    (call routine arguments view run).stops =
      [routine].filter (fun routine => routine.channel ≠ .values) ++ run.stops := by
  rw [stops, begun_call h, ← List.singleton_append, List.filter_append, stops]

/-- A call whose arguments cannot be shown fails and begins nothing. -/
theorem call_hidden (routine : Routine) (view : β → Datum α) (run : Traced α β)
    (h : arguments.all (·.datum.isShowable) ≠ true) :
    call routine arguments view run .debug = (.error .noCoordinates, []) := by
  unfold call
  rw [if_pos (by decide), if_neg h]

end Call

/-- Whether a run stops at certain routines in turn, or fails after the first few of them. -/
structure Follows (run : Traced α β) (route : List Routine) : Prop where
  within : run.stops <+: route
  whole : ∀ b, (run .debug).1 = .ok b → run.stops = route

namespace Follows

variable {run : Traced α β} {route : List Routine}

theorem pure (b : β) : (Pure.pure b : Traced α β).Follows [] := ⟨List.prefix_rfl, fun _ _ => rfl⟩

theorem fail (fault : Fault) : (Traced.fail fault : Traced α β).Follows [] :=
  ⟨List.prefix_rfl, nofun⟩

theorem ofExcept (result : Except Fault β) : (Traced.ofExcept result : Traced α β).Follows [] := by
  cases result with
  | ok b => exact pure b
  | error fault => exact fail fault

theorem bind {next : β → Traced α γ} {rest : List Routine} (h : run.Follows route)
    (hnext : ∀ b, (run .debug).1 = .ok b → (next b).Follows rest) :
    (run >>= next).Follows (route ++ rest) := by
  cases hresult : (run .debug).1 with
  | error fault =>
    have hstops : (run >>= next).stops = run.stops := by
      rw [stops_bind, hresult]
      exact List.append_nil _
    constructor
    · rw [hstops]
      exact h.within.trans (List.prefix_append route rest)
    · intro c hc
      obtain ⟨b, hb, _⟩ := exists_of_debug_bind hc
      rw [hresult] at hb
      cases hb
  | ok b =>
    have hstops : (run >>= next).stops = route ++ (next b).stops := by
      rw [stops_bind, hresult, h.whole b hresult]
    have hrest := hnext b hresult
    constructor
    · rw [hstops, List.prefix_append_right_inj]
      exact hrest.within
    · intro c hc
      obtain ⟨b', hb', hc⟩ := exists_of_debug_bind hc
      obtain rfl : b = b' := Except.ok.inj (hresult.symm.trans hb')
      rw [hstops, hrest.whole c hc]

/-- A sequence whose second part does not stop. -/
theorem andThen {next : β → Traced α γ} (h : run.Follows route)
    (hnext : ∀ b, (next b).Follows []) : (run >>= next).Follows route := by
  have hbind := h.bind fun b _ => hnext b
  rwa [List.append_nil] at hbind

section Call

variable {routine : Routine} {arguments : List (Argument α)} {view : β → Datum α}

theorem enclose (routine : Routine) (arguments : List (Argument α)) (view : β → Datum α)
    (h : run.Follows route) :
    (Traced.call routine arguments view run).Follows
      ([routine].filter (fun routine => routine.channel ≠ .values) ++ route) := by
  by_cases harguments : arguments.all (·.datum.isShowable) = true
  · constructor
    · rw [stops_call harguments, List.prefix_append_right_inj]
      exact h.within
    · intro b hb
      rw [stops_call harguments, h.whole b (debug_of_call hb)]
  · have hhidden := call_hidden routine view run harguments
    constructor
    · rw [stops, begun, hhidden]
      exact List.nil_prefix
    · intro b hb
      rw [hhidden] at hb
      cases hb

/-- A call is a stop, unless it is a step on values. -/
theorem call (hroutine : routine.channel ≠ .values) (h : run.Follows route) :
    (Traced.call routine arguments view run).Follows (routine :: route) := by
  have hcall := h.enclose routine arguments view
  rwa [List.filter_cons_of_pos (by simpa using hroutine)] at hcall

/-- A step on values is no stop. -/
theorem step (hroutine : routine.channel = .values) (h : run.Follows route) :
    (Traced.call routine arguments view run).Follows route := by
  have hcall := h.enclose routine arguments view
  rwa [List.filter_cons_of_neg (by simpa using hroutine)] at hcall

end Call

end Follows

end Traced

/-! ## Routes through a tree -/

namespace Expr

/-- The kinds of the nodes of a tree, in source order. -/
def kinds : Expr α → List NodeOwner
  | literal _ _ => [.literal]
  | var _ _ => [.var]
  | intersect a b _ => .intersect :: (a.kinds ++ b.kinds)
  | bind _ a b _ => .bind :: (a.kinds ++ b.kinds)
  | shift _ _ a _ => .shift :: a.kinds
  | placeholder => [.missing]

/-- Where putting the literals of a tree in canonical form stops: at every node. -/
def normalization (e : Expr α) : List Routine := e.kinds.map (.ofNode · .canonical)

/-- Where evaluating a tree stops: at every node, and at an intersection of values after the parts of
an intersection. -/
def evaluation : Expr α → List Routine
  | literal _ _ => [.ofNode .literal .evaluate]
  | var _ _ => [.ofNode .var .evaluate]
  | intersect a b _ =>
    .ofNode .intersect .evaluate :: (a.evaluation ++ (b.evaluation ++ [.task .intersect]))
  | bind _ a b _ => .ofNode .bind .evaluate :: (a.evaluation ++ b.evaluation)
  | shift _ _ a _ => .ofNode .shift .evaluate :: a.evaluation
  | placeholder => [.ofNode .missing .evaluate]

theorem count_normalization (e : Expr α) (owner : NodeOwner) :
    e.normalization.count (.ofNode owner .canonical) = e.kinds.count owner :=
  List.count_map_of_injective _ _ (fun _ _ h => (Routine.ofNode.inj h).1) _

theorem count_evaluation (e : Expr α) (owner : NodeOwner) :
    e.evaluation.count (.ofNode owner .evaluate) = e.kinds.count owner := by
  have hnode (other : NodeOwner) :
      (Routine.ofNode other .evaluate == Routine.ofNode owner .evaluate) = (other == owner) := by
    cases other <;> cases owner <;> rfl
  induction e with
  | intersect a b span iha ihb => simp [evaluation, kinds, List.count_cons, hnode, iha, ihb]
  | bind name a b span iha ihb => simp [evaluation, kinds, List.count_cons, hnode, iha, ihb]
  | shift dx dy a span ih => simp [evaluation, kinds, List.count_cons, hnode, ih]
  | _ => simp [evaluation, kinds, List.count_cons, hnode]

theorem count_task_evaluation (e : Expr α) :
    e.evaluation.count (.task .intersect) = e.kinds.count .intersect := by
  induction e with
  | intersect a b span iha ihb =>
    simp [evaluation, kinds, iha, ihb]
    omega
  | bind name a b span iha ihb => simp [evaluation, kinds, iha, ihb]
  | shift dx dy a span ih => simp [evaluation, kinds, ih]
  | _ => simp [evaluation, kinds]

theorem not_mem_evaluation (e : Expr α) (owner : NodeOwner) :
    Routine.ofNode owner .canonical ∉ e.evaluation := by
  induction e with
  | intersect a b span iha ihb => simp [evaluation, iha, ihb]
  | bind name a b span iha ihb => simp [evaluation, iha, ihb]
  | shift dx dy a span ih => simp [evaluation, ih]
  | _ => simp [evaluation]

end Expr

/-! ## Entries by name -/

/-- Steps on nodes are told apart by their names. -/
theorem Routine.eq_ofNode_iff (routine : Routine) (owner : NodeOwner) (step : NodeStep) :
    routine.channel = .tree ∧ routine.name = owner.name ++ "." ++ step.name ↔
      routine = .ofNode owner step := by
  constructor
  · rintro ⟨hchannel, hname⟩
    cases routine with
    | ofNode other step' =>
      revert hname
      cases other <;> cases owner <;> cases step' <;> cases step <;> decide
    | task t => cases t <;> cases hchannel
    | _ => cases hchannel
  · rintro rfl
    exact ⟨rfl, rfl⟩

theorem Routine.eq_intersect_iff (routine : Routine) :
    routine.channel = .intersection ∧ routine.name = "intersect" ↔
      routine = .task .intersect := by
  constructor
  · rintro ⟨hchannel, hname⟩
    cases routine with
    | task t =>
      revert hchannel hname
      cases t <;> decide
    | _ => cases hchannel
  · rintro rfl
    exact ⟨rfl, rfl⟩

/-- Entries by the name of a routine are entries of that routine. -/
theorem Traced.entries_eq {channel : Channel} {name : String} {routine : Routine}
    (h : ∀ other : Routine, other.channel = channel ∧ other.name = name ↔ other = routine)
    (hroutine : routine.channel ≠ .values) (run : Traced α β) :
    run.entries channel name = run.stops.count routine := by
  rw [← run.count_begun hroutine, List.count, entries]
  refine List.countP_congr fun other _ => ?_
  rw [decide_eq_true_iff, h, beq_iff_eq]

namespace NodeOwner

theorem canonical_iff (owner : NodeOwner) (routine : Routine) :
    routine.channel = .tree ∧ routine.name = owner.name ++ ".preprocess" ↔
      routine = .ofNode owner .canonical := by
  rw [← Routine.eq_ofNode_iff, String.append_assoc]
  rfl

theorem evaluate_iff (owner : NodeOwner) (routine : Routine) :
    routine.channel = .tree ∧ routine.name = owner.name ++ ".evaluate" ↔
      routine = .ofNode owner .evaluate := by
  rw [← Routine.eq_ofNode_iff, String.append_assoc]
  rfl

end NodeOwner

open Traced (Follows)

variable [Scalar α]

/-! ## Steps on values -/

namespace Straight

theorem follows_meetPoint (l : Straight α) (p : Point α) : (l.meetPoint p).Follows [] := by
  cases l <;> exact .step rfl (.step rfl (.pure _))

theorem follows_meetLine (l : Straight α) (k : Line α) : (l.meetLine k).Follows [] := by
  cases l with
  | line l => exact .step rfl (.pure _)
  | vertical v => exact .step rfl (.step rfl (.pure _))

theorem follows_meetVertical (l : Straight α) (v : Vertical α) : (l.meetVertical v).Follows [] := by
  cases l <;> exact .step rfl (.pure _)

end Straight

theorem Segment.follows_lineThrough (s : Segment α) : s.lineThrough.Follows [] :=
  .step rfl (.andThen (.step rfl (.pure _)) fun _ => .pure _)

theorem Value.follows_clip (v : Value α) (s : Segment α) : (v.clip s).Follows [] := by
  cases v with
  | segment t => exact .step rfl (.andThen (.step rfl (.pure _)) fun _ => .pure _)
  | placeholder => exact .step rfl (.fail _)
  | _ => exact .step rfl (.pure _)

theorem Segment.follows_meetBy (s : Segment α) (v : Value α)
    {intersect : Straight α → Traced α (Value α)} (h : ∀ l, (intersect l).Follows []) :
    (s.meetBy v intersect).Follows [] :=
  .step rfl (s.follows_lineThrough.andThen fun l => (h l).andThen fun r => r.follows_clip s)

theorem Point.follows_meetSegment (p : Point α) (s : Segment α) : (p.meetSegment s).Follows [] :=
  s.follows_meetBy _ fun l => .step rfl (l.follows_meetPoint p)

theorem Straight.follows_meetSegment (l : Straight α) (s : Segment α) :
    (l.meetSegment s).Follows [] := by
  cases l with
  | line l => exact s.follows_meetBy _ fun k => .step rfl (k.follows_meetLine l)
  | vertical v => exact s.follows_meetBy _ fun k => .step rfl (k.follows_meetVertical v)

theorem Segment.follows_meetSegment (t s : Segment α) : (t.meetSegment s).Follows [] :=
  s.follows_meetBy _ fun l => .step rfl (l.follows_meetSegment t)

namespace Value

theorem follows_meetPoint (v : Value α) (p : Point α) : (v.meetPoint p).Follows [] := by
  cases v with
  | point q => exact .step rfl (.pure _)
  | line l => exact (Straight.line l).follows_meetPoint p
  | vertical w => exact (Straight.vertical w).follows_meetPoint p
  | segment s => exact .step rfl (p.follows_meetSegment s)
  | empty => exact .step rfl (.pure _)
  | placeholder =>
    show (Traced.call _ _ Datum.value _).Follows []
    exact .step rfl (.fail _)

theorem follows_meetLine (v : Value α) (l : Line α) : (v.meetLine l).Follows [] := by
  cases v with
  | point q => exact .step rfl (.pure _)
  | line k => exact (Straight.line k).follows_meetLine l
  | vertical w => exact (Straight.vertical w).follows_meetLine l
  | segment s => exact .step rfl ((Straight.line l).follows_meetSegment s)
  | empty => exact .step rfl (.pure _)
  | placeholder =>
    show (Traced.call _ _ Datum.value _).Follows []
    exact .step rfl (.fail _)

theorem follows_meetVertical (v : Value α) (w : Vertical α) : (v.meetVertical w).Follows [] := by
  cases v with
  | point q => exact .step rfl (.pure _)
  | line l => exact (Straight.line l).follows_meetVertical w
  | vertical u => exact (Straight.vertical u).follows_meetVertical w
  | segment s => exact .step rfl ((Straight.vertical w).follows_meetSegment s)
  | empty => exact .step rfl (.pure _)
  | placeholder =>
    show (Traced.call _ _ Datum.value _).Follows []
    exact .step rfl (.fail _)

theorem follows_meetSegment (v : Value α) (s : Segment α) : (v.meetSegment s).Follows [] := by
  cases v with
  | point p => exact p.follows_meetSegment s
  | line l => exact (Straight.line l).follows_meetSegment s
  | vertical w => exact (Straight.vertical w).follows_meetSegment s
  | segment t => exact t.follows_meetSegment s
  | empty => exact .step rfl (.pure _)
  | placeholder => exact s.follows_meetBy _ fun _ => .step rfl (.fail _)

/-- Meeting of values leads to nothing but steps on values. -/
theorem follows_dispatch (a b : Value α) : (a.dispatch b).Follows [] := by
  refine .step rfl ?_
  cases a with
  | empty => exact .step rfl (.pure _)
  | point p => exact b.follows_meetPoint p
  | line l => exact b.follows_meetLine l
  | vertical v => exact b.follows_meetVertical v
  | segment s => exact b.follows_meetSegment s
  | placeholder => exact .fail _

theorem follows_intersect (a b : Value α) : (a.intersect b).Follows [.task .intersect] :=
  .call nofun (a.follows_dispatch b)

theorem follows_shift (v : Value α) (dx dy : α) : (v.shift dx dy).Follows [] := by
  refine .step rfl ?_
  cases v with
  | placeholder => exact .fail _
  | _ => exact .pure _

end Value

/-! ## Normalizing and evaluating -/

namespace Expr

theorem follows_canonical (e : Expr α) : e.canonical.Follows e.normalization := by
  have both {a b : Expr α} (ha : a.canonical.Follows a.normalization)
      (hb : b.canonical.Follows b.normalization) (next : Expr α → Expr α → Expr α) :
      (do return next (← a.canonical) (← b.canonical) : Traced α (Expr α)).Follows
        ((a.kinds ++ b.kinds).map (.ofNode · .canonical)) := by
    rw [List.map_append]
    exact ha.bind fun _ _ => hb.andThen fun _ => .pure _
  induction e with
  | literal v span =>
    exact .call nofun (.andThen (.step rfl (.pure _)) fun _ => .pure _)
  | var name span => exact .call nofun (.pure _)
  | intersect a b span iha ihb => exact .call nofun (both iha ihb _)
  | bind name a b span iha ihb => exact .call nofun (both iha ihb _)
  | shift dx dy a span ih => exact .call nofun (ih.andThen fun _ => .pure _)
  | placeholder => exact .call nofun (.fail _)

theorem follows_eval (e : Expr α) (env : Env α) : (e.eval env).Follows e.evaluation := by
  induction e generalizing env with
  | literal v span => exact .call nofun (.pure _)
  | var name span => exact .call nofun (.ofExcept _)
  | intersect a b span iha ihb =>
    refine .call nofun ((iha env).bind fun v _ => (ihb env).bind fun w _ => ?_)
    exact v.follows_intersect w
  | bind name a b span iha ihb =>
    exact .call nofun ((iha env).bind fun v _ => ihb (env.bind name v))
  | shift dx dy a span ih => exact .call nofun ((ih env).andThen fun v => v.follows_shift dx dy)
  | placeholder => exact .call nofun (.fail _)

@[simp]
theorem evaluation_normalized (e : Expr α) : e.normalized.evaluation = e.evaluation := by
  induction e with
  | intersect a b span iha ihb => rw [normalized, evaluation, iha, ihb, evaluation]
  | bind name a b span iha ihb => rw [normalized, evaluation, iha, ihb, evaluation]
  | shift dx dy a span ih => rw [normalized, evaluation, ih, evaluation]
  | _ => rfl

/-- Where evaluating a tree over the five kinds of set stops: at all its nodes to normalize them, and
then at all its nodes again to evaluate them, or at the first few of these if it fails. -/
theorem exists_stops_evaluate {e : Expr α} (h : e.IsConcrete) :
    ∃ rest, e.evaluate.stops = .task .evaluate :: .task .normalize :: e.normalization ++ rest ∧
      rest <+: .task .evalExpr :: e.evaluation ∧
      ∀ v, (e.evaluate .debug).1 = .ok v → rest = .task .evalExpr :: e.evaluation := by
  have hnormalize : (e.normalize .debug).1 = .ok e.normalized := normalize_fst h .debug
  have hfirst : e.normalize.Follows (.task .normalize :: e.normalization) :=
    .call nofun e.follows_canonical
  have hsecond : (e.normalized.evaluateIn (some .empty)).Follows
      (.task .evalExpr :: e.evaluation) := by
    rw [← evaluation_normalized]
    exact .call nofun (follows_eval _ _)
  refine ⟨(e.normalized.evaluateIn (some .empty)).stops, ?_, hsecond.within, ?_⟩
  · rw [evaluate, Traced.stops_call (by simp [Argument.expr, Argument.of]), Traced.stops_bind,
      hnormalize, hfirst.whole _ hnormalize]
    rfl
  · intro v hv
    obtain ⟨n, hn, hv⟩ := Traced.exists_of_debug_bind (Traced.debug_of_call hv)
    obtain rfl : e.normalized = n := Except.ok.inj (hnormalize.symm.trans hn)
    exact hsecond.whole v hv

/-- No node is normalized after one has been evaluated. -/
theorem pairwise_begun_evaluate {e : Expr α} (h : e.IsConcrete) :
    e.evaluate.begun.Pairwise fun earlier later => ∀ owner owner' : NodeOwner,
      earlier = .ofNode owner .evaluate → later ≠ .ofNode owner' .canonical := by
  obtain ⟨rest, hstops, hrest, _⟩ := exists_stops_evaluate h
  have hfirst : ∀ routine ∈ .task .evaluate :: .task .normalize :: e.normalization,
      ∀ owner, routine ≠ .ofNode owner .evaluate := by simp [normalization]
  have hsecond : ∀ routine ∈ rest, ∀ owner, routine ≠ .ofNode owner .canonical := by
    rintro _ hmem owner rfl
    simpa [e.not_mem_evaluation owner] using hrest.subset hmem
  have hpairwise : e.evaluate.stops.Pairwise fun earlier later => ∀ owner owner' : NodeOwner,
      earlier = .ofNode owner .evaluate → later ≠ .ofNode owner' .canonical := by
    rw [hstops]
    refine List.pairwise_append.2 ⟨?_, ?_, fun x hx y _ owner _ heq => ?_⟩
    · exact List.pairwise_of_forall_mem_list fun x hx y _ owner _ heq =>
        absurd heq (hfirst x hx owner)
    · exact List.pairwise_of_forall_mem_list fun x _ y hy _ owner' _ => hsecond y hy owner'
    · exact absurd heq (hfirst x hx owner)
  rw [Traced.stops, List.pairwise_filter] at hpairwise
  refine hpairwise.imp fun {earlier later} hbefore owner owner' hearlier hlater => ?_
  subst hearlier hlater
  exact hbefore rfl rfl owner owner' rfl rfl

end Expr

/-- In a trace of evaluating a tree over the five kinds of set, every kind of node is entered as
often to be normalized as the tree has nodes of the kind, and all that comes before any node is
entered to be evaluated. If a value is yielded, then every kind of node is entered as often to be
evaluated, and two values are intersected for each intersection; if the evaluation fails, not more
often. -/
theorem nodes_visited_once (e : Expr α) (h : e.IsConcrete) :
    (∀ owner : NodeOwner,
        e.evaluate.entries .tree (owner.name ++ ".preprocess") = e.kinds.count owner) ∧
      e.evaluate.begun.Pairwise (fun earlier later => ∀ owner owner' : NodeOwner,
        earlier.channel = .tree ∧ earlier.name = owner.name ++ ".evaluate" →
          ¬(later.channel = .tree ∧ later.name = owner'.name ++ ".preprocess")) ∧
      (∀ v, (e.evaluate .debug).1 = .ok v →
        (∀ owner : NodeOwner,
            e.evaluate.entries .tree (owner.name ++ ".evaluate") = e.kinds.count owner) ∧
          e.evaluate.entries .intersection "intersect" = e.kinds.count .intersect) ∧
      ∀ fault, (e.evaluate .debug).1 = .error fault →
        (∀ owner : NodeOwner,
            e.evaluate.entries .tree (owner.name ++ ".evaluate") ≤ e.kinds.count owner) ∧
          e.evaluate.entries .intersection "intersect" ≤ e.kinds.count .intersect := by
  obtain ⟨rest, hstops, hrest, hwhole⟩ := Expr.exists_stops_evaluate h
  have hcanonical (owner : NodeOwner) : rest.count (.ofNode owner .canonical) = 0 := by
    refine List.count_eq_zero.2 fun hmem => ?_
    simpa [e.not_mem_evaluation owner] using hrest.subset hmem
  have hevaluate (owner : NodeOwner) : e.evaluate.entries .tree (owner.name ++ ".evaluate") =
      rest.count (.ofNode owner .evaluate) := by
    rw [Traced.entries_eq owner.evaluate_iff nofun, hstops]
    simp [Expr.normalization, List.count_eq_zero]
  have hintersect : e.evaluate.entries .intersection "intersect" =
      rest.count (.task .intersect) := by
    rw [Traced.entries_eq Routine.eq_intersect_iff nofun, hstops]
    simp [Expr.normalization, List.count_eq_zero]
  refine ⟨fun owner => ?_, ?_, fun v hv => ?_, fun _ _ => ?_⟩
  · rw [Traced.entries_eq owner.canonical_iff nofun, hstops, List.count_append,
      hcanonical, ← e.count_normalization owner]
    simp
  · refine (Expr.pairwise_begun_evaluate h).imp ?_
    intro earlier later hbefore owner owner' hearlier hlater
    exact hbefore owner owner' ((owner.evaluate_iff _).1 hearlier) ((owner'.canonical_iff _).1 hlater)
  · rw [hintersect, hwhole v hv]
    refine ⟨fun owner => ?_, ?_⟩
    · rw [hevaluate, hwhole v hv, ← e.count_evaluation owner]
      simp
    · rw [← e.count_task_evaluation]
      simp
  · rw [hintersect]
    refine ⟨fun owner => ?_, ?_⟩
    · rw [hevaluate, ← e.count_evaluation owner]
      simpa using hrest.sublist.count_le (.ofNode owner .evaluate)
    · rw [← e.count_task_evaluation]
      simpa using hrest.sublist.count_le (.task .intersect)

/-- A tree with an intersection under a name that is used three times, and a name that is not used. -/
def Expr.reused : Expr Rat :=
  .bind "x" (.intersect (.literal (.line ⟨1, 0⟩) none) (.literal (.vertical ⟨2⟩) none) none)
    (.bind "y" (.shift 1 0 (.var "x" none) none) (.intersect (.var "x" none) (.var "x" none) none)
      none) none

theorem nodes_visited_once_reused :
    Expr.reused.IsConcrete ∧ (Expr.reused.evaluate .debug).1 = .ok (.point ⟨2, 2⟩) ∧
      Expr.reused.evaluate.entries .tree (NodeOwner.var.name ++ ".preprocess") = 3 ∧
      Expr.reused.evaluate.entries .tree (NodeOwner.var.name ++ ".evaluate") = 3 ∧
      Expr.reused.evaluate.entries .tree (NodeOwner.literal.name ++ ".evaluate") = 2 ∧
      Expr.reused.evaluate.entries .intersection "intersect" = 2 := by
  have hconcrete : Expr.reused.IsConcrete := ⟨⟨nofun, nofun⟩, trivial, trivial, trivial⟩
  have hresult : (Expr.reused.evaluate .debug).1 = .ok (.point ⟨2, 2⟩) := by decide +kernel
  obtain ⟨hcanonical, _, hsuccess, _⟩ := nodes_visited_once Expr.reused hconcrete
  obtain ⟨hevaluate, hintersect⟩ := hsuccess _ hresult
  refine ⟨hconcrete, hresult, ?_, ?_, ?_, ?_⟩
  · rw [hcanonical]
    decide
  · rw [hevaluate]
    decide
  · rw [hevaluate]
    decide
  · rw [hintersect]
    decide

end Planar
