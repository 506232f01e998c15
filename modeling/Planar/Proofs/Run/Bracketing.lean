import Planar.Proofs.Run.Conventions

/-!
# Reports of calls are bracketed

The reports of calls open and close like brackets: a call that begins within another ends before it.
A fault leaves the calls that are open, the innermost first, and nothing begins after it.

* `Event.track`, `Event.openAfter` — the calls that are open after an event and after a run of them;
* `Event.Balanced`, `Event.Unwinds` — what a run that yields a result reports, and one that fails;
* `Traced.NestedTo` — runs that report so; `Convention.nested` makes it a convention;
* `Traced.Bracketed`, `calls_bracketed` — the brackets of a whole run, from the outermost call on.
-/

namespace Planar

variable {α β γ : Type}

/-! ## Open calls -/

/-- The calls that stay open when a call of `routine` ends, which must be the innermost. -/
def Routine.close (routine : Routine) : List Routine → Option (List Routine)
  | [] => none
  | innermost :: outer => if innermost = routine then some outer else none

@[simp]
theorem Routine.close_self (routine : Routine) (outer : List Routine) :
    routine.close (routine :: outer) = some outer := if_pos rfl

namespace Event

/-- The calls that are open after an event, given those before it, the innermost first. An event
that ends any other call than the innermost is out of place. A routine has one name and one channel,
so the events of a call agree in both. -/
def track (frames : List Routine) : Event α → Option (List Routine)
  | enter routine _ => some (routine :: frames)
  | leave routine _ | failed routine => routine.close frames
  | skipped _ => some frames

/-- The calls that are open after some events, given those before them; `none` if one of the events
is out of place. -/
def openAfter (frames : List Routine) (events : List (Event α)) : Option (List Routine) :=
  events.foldlM track frames

/-- Whether an event reports that a fault leaves a call. -/
def IsFailure : Event α → Prop
  | failed _ => True
  | _ => False

theorem openAfter_append (frames : List Routine) (first second : List (Event α)) :
    openAfter frames (first ++ second) =
      (openAfter frames first).bind fun frames => openAfter frames second := by
  simp only [openAfter, List.foldlM_append, Option.bind_eq_bind]

/-- Calls that stay open around an event do not matter to it. -/
theorem track_append {frames frames' : List Routine} {event : Event α}
    (h : track frames event = some frames') (outer : List Routine) :
    track (frames ++ outer) event = some (frames' ++ outer) := by
  have close_append {routine : Routine} (h : routine.close frames = some frames') :
      routine.close (frames ++ outer) = some (frames' ++ outer) := by
    cases frames with
    | nil => cases h
    | cons innermost frames =>
      simp only [Routine.close, List.cons_append] at h ⊢
      split at h
      · cases h
        simp [*]
      · cases h
  cases event with
  | enter routine arguments =>
    cases h
    rfl
  | leave routine result => exact close_append h
  | failed routine => exact close_append h
  | skipped label =>
    cases h
    rfl

/-- Calls that stay open around some events do not matter to them. -/
theorem openAfter_outer {frames frames' : List Routine} {events : List (Event α)}
    (h : openAfter frames events = some frames') (outer : List Routine) :
    openAfter (frames ++ outer) events = some (frames' ++ outer) := by
  induction events generalizing frames with
  | nil =>
    cases h
    rfl
  | cons event events ih =>
    obtain ⟨next, hevent, hevents⟩ := Option.bind_eq_some_iff.1 h
    show (track (frames ++ outer) event).bind (openAfter · events) = _
    rw [track_append hevent outer]
    exact ih hevents

/-- Failures of all open calls leave none open. -/
theorem openAfter_failed (frames : List Routine) :
    openAfter frames (frames.map (failed (α := α))) = some [] := by
  induction frames with
  | nil => rfl
  | cons innermost frames ih =>
    show (track (innermost :: frames) (failed innermost)).bind (openAfter · _) = _
    rw [track, Routine.close_self]
    exact ih

/-! ## Balanced and unwinding events -/

/-- Whether every call that some events open is closed by one of them, in order and without a
failure. -/
structure Balanced (events : List (Event α)) : Prop where
  closed : openAfter [] events = some []
  returns : ∀ event ∈ events, ¬event.IsFailure

/-- Whether some events end with the failure of all calls that are then open, the innermost first,
and none of them fails before that. -/
def Unwinds (frames : List Routine) (events : List (Event α)) : Prop :=
  ∃ before, events = before ++ frames.map failed ∧ openAfter [] before = some frames ∧
    ∀ event ∈ before, ¬event.IsFailure

theorem Balanced.nil : Balanced ([] : List (Event α)) := ⟨rfl, List.forall_mem_nil _⟩

theorem Balanced.unwinds {events : List (Event α)} (h : Balanced events) : Unwinds [] events :=
  ⟨events, (List.append_nil events).symm, h.closed, h.returns⟩

theorem Balanced.append {first second : List (Event α)} (h : Balanced first)
    (h' : Balanced second) : Balanced (first ++ second) where
  closed := by rw [openAfter_append, h.closed, Option.bind_some, h'.closed]
  returns := List.forall_mem_append.2 ⟨h.returns, h'.returns⟩

theorem Balanced.append_unwinds {frames : List Routine} {first second : List (Event α)}
    (h : Balanced first) (h' : Unwinds frames second) : Unwinds frames (first ++ second) := by
  obtain ⟨before, rfl, hopen, hreturns⟩ := h'
  refine ⟨first ++ before, (List.append_assoc _ _ _).symm, ?_, ?_⟩
  · rw [openAfter_append, h.closed, Option.bind_some, hopen]
  · exact List.forall_mem_append.2 ⟨h.returns, hreturns⟩

/-- A call around balanced events is balanced. -/
theorem Balanced.enclose {events : List (Event α)} (h : Balanced events) (routine : Routine)
    (arguments : List (Argument α)) (result : Datum α) :
    Balanced (enter routine arguments :: events ++ [leave routine result]) where
  closed := by
    have hinner : openAfter [routine] events = some [routine] := openAfter_outer h.closed [routine]
    show openAfter [routine] (events ++ [leave routine result]) = some []
    rw [openAfter_append, hinner, Option.bind_some]
    simp [openAfter, track]
  returns := by
    intro event hevent
    simp only [List.cons_append, List.mem_cons, List.mem_append, List.not_mem_nil,
      or_false] at hevent
    rcases hevent with rfl | hevent | rfl
    · exact id
    · exact h.returns event hevent
    · exact id

/-- A call around unwinding events is the last one that the fault leaves. -/
theorem Unwinds.enclose {frames : List Routine} {events : List (Event α)}
    (h : Unwinds frames events) (routine : Routine) (arguments : List (Argument α)) :
    Unwinds (frames ++ [routine]) (enter routine arguments :: events ++ [failed routine]) := by
  obtain ⟨before, rfl, hopen, hreturns⟩ := h
  refine ⟨enter routine arguments :: before, by simp, ?_, ?_⟩
  · exact openAfter_outer hopen [routine]
  · exact List.forall_mem_cons.2 ⟨id, hreturns⟩

/-- Unwinding leaves no call open. -/
theorem Unwinds.closed {frames : List Routine} {events : List (Event α)}
    (h : Unwinds frames events) : openAfter [] events = some [] := by
  obtain ⟨before, rfl, hopen, _⟩ := h
  rw [openAfter_append, hopen, Option.bind_some, openAfter_failed]

end Event

open Event (Balanced Unwinds openAfter)

/-! ## Nested runs -/

namespace Traced

/-- The debug events of a run that wants them, in order. -/
def debugEvents (run : Traced α β) : List (Event α) :=
  (run .debug).2.filter fun event => event.level = .debug

theorem debugEvents_call {routine : Routine} {arguments : List (Argument α)} {view : β → Datum α}
    {run : Traced α β} (harguments : arguments.all (·.datum.isShowable) = true)
    (hview : ∀ b, (run .debug).1 = .ok b → (view b).isShowable = true) :
    (call routine arguments view run).debugEvents =
      .enter routine arguments :: run.debugEvents ++
        [Event.ending routine view (run .debug).1] := by
  have hbegins : (Event.enter routine arguments).level = .debug := rfl
  have hending : (Event.ending routine view (run .debug).1).level = .debug := by
    cases (run .debug).1 <;> rfl
  simp [debugEvents, call_debug harguments hview, hbegins, hending]

/-- Whether a run reports balanced calls and yields what has the property `Q`, or fails and unwinds
the calls that are open then. -/
structure NestedTo (run : Traced α β) (Q : β → Prop) : Prop where
  balanced : ∀ b, (run .debug).1 = .ok b → Q b ∧ Balanced run.debugEvents
  unwinds : ∀ fault, (run .debug).1 = .error fault → ∃ frames, Unwinds frames run.debugEvents

namespace NestedTo

variable {run : Traced α β} {Q : β → Prop}

theorem pure {b : β} (h : Q b) : NestedTo (Pure.pure b : Traced α β) Q := by
  refine ⟨?_, nofun⟩
  rintro _ ⟨⟩
  exact ⟨h, .nil⟩

theorem fail (fault : Fault) : NestedTo (Traced.fail fault : Traced α β) Q :=
  ⟨nofun, fun _ _ => ⟨[], Balanced.nil.unwinds⟩⟩

theorem skipped (label : String) :
    NestedTo (Traced.report (.skipped label : Event α)) fun _ => True :=
  ⟨fun _ _ => ⟨trivial, .nil⟩, nofun⟩

theorem bind {next : β → Traced α γ} {R : γ → Prop} (h : run.NestedTo Q)
    (hnext : ∀ b, Q b → (next b).NestedTo R) : (run >>= next).NestedTo R := by
  cases hrun : run .debug with
  | mk first events =>
    cases first with
    | error fault =>
      have hbind : (run >>= next) .debug = (.error fault, events) := by
        show andThen run next .debug = _
        simp [andThen, hrun]
      have hevents : (run >>= next).debugEvents = run.debugEvents := by
        rw [debugEvents, hbind, debugEvents, hrun]
      constructor
      · intro c hc
        rw [hbind] at hc
        cases hc
      · intro _ _
        rw [hevents]
        exact h.unwinds fault (by rw [hrun])
    | ok b =>
      have hbind : (run >>= next) .debug = _ := bind_of_ok hrun
      have hevents : (run >>= next).debugEvents = run.debugEvents ++ (next b).debugEvents := by
        rw [debugEvents, hbind, debugEvents, hrun, List.filter_append, debugEvents]
      obtain ⟨hb, hfirst⟩ := h.balanced b (by rw [hrun])
      constructor
      · intro c hc
        rw [hbind] at hc
        obtain ⟨hR, hsecond⟩ := (hnext b hb).balanced c hc
        rw [hevents]
        exact ⟨hR, hfirst.append hsecond⟩
      · intro fault hfault
        rw [hbind] at hfault
        obtain ⟨frames, hsecond⟩ := (hnext b hb).unwinds fault hfault
        rw [hevents]
        exact ⟨frames, hfirst.append_unwinds hsecond⟩

section Call

variable {routine : Routine} {arguments : List (Argument α)} {view : β → Datum α}

theorem shows (hview : ∀ b, Q b → (view b).isShowable = true) (h : run.NestedTo Q) {b : β}
    (hb : (run .debug).1 = .ok b) : (view b).isShowable = true :=
  hview b (h.balanced b hb).1

variable (harguments : arguments.all (·.datum.isShowable) = true)
  (hview : ∀ b, Q b → (view b).isShowable = true) (h : run.NestedTo Q)
include harguments hview h

theorem balanced_call {b : β} (hb : (Traced.call routine arguments view run .debug).1 = .ok b) :
    Q b ∧ Balanced (Traced.call routine arguments view run).debugEvents := by
  rw [call_debug harguments fun _ => h.shows hview] at hb
  have hresult : (run .debug).1 = .ok b := hb
  obtain ⟨hQ, hbalanced⟩ := h.balanced b hresult
  rw [debugEvents_call harguments fun _ => h.shows hview, hresult]
  exact ⟨hQ, hbalanced.enclose routine arguments (view b)⟩

theorem unwinds_call {fault : Fault}
    (hfault : (Traced.call routine arguments view run .debug).1 = .error fault) :
    ∃ frames, Unwinds (frames ++ [routine])
      (Traced.call routine arguments view run).debugEvents := by
  rw [call_debug harguments fun _ => h.shows hview] at hfault
  have hresult : (run .debug).1 = .error fault := hfault
  obtain ⟨frames, hunwinds⟩ := h.unwinds fault hresult
  rw [debugEvents_call harguments fun _ => h.shows hview, hresult]
  exact ⟨frames, hunwinds.enclose routine arguments⟩

theorem call : (Traced.call routine arguments view run).NestedTo Q := by
  constructor
  · intro b hb
    exact h.balanced_call harguments hview hb
  · intro fault hfault
    obtain ⟨frames, hunwinds⟩ := h.unwinds_call harguments hview hfault
    exact ⟨frames ++ [routine], hunwinds⟩

end Call

end NestedTo

end Traced

/-- Nesting is a convention of tracing. -/
def Convention.nested (α : Type) : Convention α where
  Run := Traced.NestedTo
  pure := .pure
  fail := .fail
  skipped := .skipped
  bind := .bind
  call harguments hview h := .call harguments hview h

/-! ## Bracketed runs -/

/-- Whether the debug events of a run are the brackets of a call of `routine`: they begin with it
and are properly nested; none of them is a failure if the run yields a result; and if it fails,
those from the first failure on are the failures of the calls that are open then, one for each, from
the innermost to that of `routine`. -/
structure Traced.Bracketed (routine : Routine) (run : Traced α β) : Prop where
  begins : ∃ arguments, run.debugEvents.head? = some (.enter routine arguments)
  nested : openAfter [] run.debugEvents = some []
  returns : ∀ b, (run .debug).1 = .ok b → ∀ event ∈ run.debugEvents, ¬event.IsFailure
  unwinds : ∀ fault, (run .debug).1 = .error fault → ∃ before frames,
    run.debugEvents = before ++ frames.map .failed ∧ openAfter [] before = some frames ∧
      (∀ event ∈ before, ¬event.IsFailure) ∧ frames.getLast? = some routine

theorem Convention.Calls.bracketed {routine : Routine} {run : Traced α β} {Q : β → Prop}
    (h : (Convention.nested α).Calls routine run Q) : run.Bracketed routine := by
  obtain ⟨arguments, view, body, rfl, harguments, hview, hbody⟩ := h
  have hbody : body.NestedTo Q := hbody
  constructor
  · refine ⟨arguments, ?_⟩
    rw [Traced.debugEvents_call harguments fun _ => hbody.shows hview]
    rfl
  · cases hresult : (Traced.call routine arguments view body .debug).1 with
    | ok b => exact (hbody.balanced_call harguments hview hresult).2.closed
    | error fault =>
      obtain ⟨frames, hunwinds⟩ := hbody.unwinds_call harguments hview hresult
      exact hunwinds.closed
  · intro b hb
    exact (hbody.balanced_call harguments hview hb).2.returns
  · intro fault hfault
    obtain ⟨frames, before, hevents, hopen, hreturns⟩ :=
      hbody.unwinds_call harguments hview hfault
    exact ⟨before, frames ++ [routine], hevents, hopen, hreturns, List.getLast?_concat⟩

variable [Scalar α]

/-- The reports of evaluating a tree over the five kinds of set, of intersecting two sets, of
listing the literals of a tree and of drawing labelled sets are bracketed. -/
theorem calls_bracketed (e : Expr α) (he : e.HoldsSets) (a b : Value α) (ha : a.IsConcrete)
    (hb : b.IsConcrete) (current : Settings α) (entries : List (String × Value α))
    (hentries : ∀ entry ∈ entries, entry.2.IsConcrete) (highlight : List String)
    (settings? : Option (Settings α)) :
    e.evaluate.Bracketed (.task .evaluate) ∧ (a.intersect b).Bracketed (.task .intersect) ∧
      e.literals.Bracketed (.task .literals) ∧
      (picture current entries highlight settings?).Bracketed (.task .picture) :=
  ⟨((Convention.nested α).calls_evaluate he).bracketed,
    ((Convention.nested α).calls_intersect ha hb).bracketed,
    ((Convention.nested α).calls_literals he).bracketed,
    ((Convention.nested α).calls_picture current hentries highlight settings?).bracketed⟩

/-- A tree with a name that has no value, below an intersection and a shift. -/
def Expr.dangling : Expr Float :=
  .intersect (.literal (.segment ⟨0 / 0, 0, 1 / 0, 0 / 0⟩) none)
    (.shift 1 (1 / 0) (.var "x" none) none) none

/-- A line with a slope and a point that has no place. -/
def danglingEntries : List (String × Value Float) :=
  [("m", .line ⟨1, 0⟩), ("p", .point ⟨0 / 0, 1 / 0⟩)]

theorem calls_bracketed_dangling :
    Expr.dangling.HoldsSets ∧ (Value.vertical (α := Float) ⟨1 / 0⟩).IsConcrete ∧
      (∀ entry ∈ danglingEntries, entry.2.IsConcrete) ∧
      Expr.dangling.evaluate.Bracketed (.task .evaluate) ∧
      ((Value.vertical (α := Float) ⟨1 / 0⟩).intersect (.vertical ⟨1 / 0⟩)).Bracketed
        (.task .intersect) ∧
      Expr.dangling.literals.Bracketed (.task .literals) ∧
      (picture .default danglingEntries ["p"] none).Bracketed (.task .picture) := by
  have htree : Expr.dangling.HoldsSets := ⟨nofun, trivial⟩
  have hvertical : (Value.vertical (α := Float) ⟨1 / 0⟩).IsConcrete := nofun
  have hentries : ∀ entry ∈ danglingEntries, entry.2.IsConcrete := by
    intro entry hentry
    simp only [danglingEntries, List.mem_cons, List.not_mem_nil, or_false] at hentry
    rcases hentry with rfl | rfl <;> nofun
  refine ⟨htree, hvertical, hentries, ?_⟩
  exact calls_bracketed _ htree _ _ hvertical hvertical _ _ hentries _ _

end Planar
