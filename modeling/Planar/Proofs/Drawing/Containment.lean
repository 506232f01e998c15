import Planar.Proofs.Drawing.Crossings
import Planar.Proofs.Drawing.Window
import Planar.Proofs.Run.Transparency

/-!
# Everything that is drawn lies in the window

A run that wants every event reports each pair of coordinates before the pair is written. So the
pairs that a picture writes can be read off its events: first the corners of the rectangle to which
it is clipped, then those of its values. The latter lie in the window of the values.

* `Traced.written` — the pairs of coordinates that a run writes;
* `Traced.WritesOnly`, `DrawingDiscipline.writes` — a run writes nothing but good points;
* `written_picture` — the pairs of a picture are those of its window and of its values in turn;
* `written_within_window` — the pairs of values lie in the window up to the tolerance, and those of
  points and segments keep the padding from its sides.
-/

namespace Planar

variable {α β γ : Type}

/-! ## Pairs that are written -/

/-- The pair of coordinates that an event says is going to be written. -/
def Event.coordinate? : Event α → Option (Point α)
  | enter (.task .coordinate) (⟨_, .tuple [.number x, .number y]⟩ :: _) => some ⟨x, y⟩
  | _ => none

theorem Event.coordinate?_enter {routine : Routine} (h : routine ≠ .task .coordinate)
    (arguments : List (Argument α)) : (enter routine arguments).coordinate? = none := by
  unfold coordinate?
  split
  · cases ‹enter routine arguments = _›
    exact absurd rfl h
  · rfl

namespace Traced

/-- The pairs of coordinates that a run writes, in order. -/
def written (run : Traced α β) : List (Point α) := (run .debug).2.filterMap Event.coordinate?

variable {run : Traced α β} {next : β → Traced α γ}

theorem written_bind : (run >>= next).written = run.written ++
    match (run .debug).1 with
    | .ok b => (next b).written
    | .error _ => [] := by
  rw [written, events_bind, List.filterMap_append]
  cases (run .debug).1 <;> rfl

/-- A sequence writes what its first part does, and then at most what its second part may write. -/
theorem written_bind_prefix {first rest : List (Point α)} (hfirst : run.written = first)
    (hrest : ∀ b, (run .debug).1 = .ok b → (next b).written <+: rest) :
    (run >>= next).written <+: first ++ rest := by
  rw [written_bind, hfirst, List.prefix_append_right_inj]
  cases hrun : (run .debug).1 with
  | error fault => exact List.nil_prefix
  | ok b => exact hrest b hrun

theorem written_bind_pure (f : β → γ) : (run >>= fun b => pure (f b)).written = run.written := by
  rw [written_bind]
  cases (run .debug).1 with
  | error fault => exact List.append_nil _
  | ok b => exact List.append_nil _

section Call

variable {routine : Routine} {arguments : List (Argument α)} {view : β → Datum α}

theorem written_call (h : arguments.all (·.datum.isShowable) = true) :
    (call routine arguments view run).written =
      (Event.enter routine arguments).coordinate?.toList ++ run.written := by
  obtain ⟨endings, hevents, hendings⟩ := exists_events_call routine view run h
  have hnone : endings.filterMap Event.coordinate? = [] := by
    refine List.filterMap_eq_nil_iff.2 fun event hevent => ?_
    cases event with
    | enter other arguments => exact absurd rfl (hendings _ hevent other arguments)
    | _ => rfl
  rw [written, hevents, List.filterMap_append, hnone, List.append_nil, List.filterMap_cons]
  cases (Event.enter routine arguments).coordinate? <;> rfl

end Call

end Traced

/-- Whether a run writes only good points and what it yields has the property `Q`. -/
structure Traced.WritesOnly (good : Point α → Prop) (run : Traced α β) (Q : β → Prop) : Prop where
  forall_written : ∀ p ∈ run.written, good p
  yields : ∀ b, (run .debug).1 = .ok b → Q b

namespace Traced.WritesOnly

variable {good : Point α → Prop} {run : Traced α β} {Q : β → Prop}

theorem pure {b : β} (h : Q b) : WritesOnly good (Pure.pure b : Traced α β) Q := by
  refine ⟨List.forall_mem_nil _, ?_⟩
  rintro _ ⟨⟩
  exact h

theorem ofExcept {result : Except Fault β} (h : ∀ b, Q b) :
    WritesOnly good (Traced.ofExcept result : Traced α β) Q := by
  cases result with
  | error fault => exact ⟨List.forall_mem_nil _, nofun⟩
  | ok b => exact .pure (h b)

theorem report (label : String) :
    WritesOnly good (Traced.report (.skipped label)) fun _ => True :=
  ⟨List.forall_mem_nil _, fun _ _ => trivial⟩

theorem bind {next : β → Traced α γ} {R : γ → Prop} (h : WritesOnly good run Q)
    (hnext : ∀ b, Q b → WritesOnly good (next b) R) : WritesOnly good (run >>= next) R := by
  constructor
  · intro p hp
    rw [written_bind] at hp
    rcases List.mem_append.1 hp with hp | hp
    · exact h.forall_written p hp
    · split at hp
      case h_1 b hb => exact (hnext b (h.yields b hb)).forall_written p hp
      case h_2 => cases hp
  · intro c hc
    obtain ⟨b, hb, hc⟩ := exists_of_debug_bind hc
    exact (hnext b (h.yields b hb)).yields c hc

/-- A call writes what its body does, and the point that it reports to write. -/
theorem call {routine : Routine} {arguments : List (Argument α)} {view : β → Datum α}
    (hshown : arguments.all (·.datum.isShowable) = true)
    (hgood : ∀ p, (Event.enter routine arguments).coordinate? = some p → good p)
    (h : WritesOnly good run Q) : WritesOnly good (Traced.call routine arguments view run) Q := by
  constructor
  · intro p hp
    rw [written_call hshown] at hp
    rcases List.mem_append.1 hp with hp | hp
    · exact hgood p (Option.mem_toList.1 hp)
    · exact h.forall_written p hp
  · intro b hb
    exact h.yields b (debug_of_call hb)

theorem written_eq_nil (h : WritesOnly (fun _ => False) run Q) : run.written = [] :=
  List.eq_nil_iff_forall_not_mem.2 h.forall_written

end Traced.WritesOnly

variable [Scalar α]

/-- The discipline of drawings that write only good points. -/
def DrawingDiscipline.writes (good : Point α → Prop) (decimals : Int) :
    DrawingDiscipline α decimals where
  rule _ := True
  Run := Traced.WritesOnly good
  pure := .pure
  bind := .bind
  call := by
    intro _ routine arguments view body Q _ harguments _ hbody
    refine hbody.call (Argument.all_isShowable harguments) ?_
    -- a call about values has no pair among its arguments
    intro p hp
    unfold Event.coordinate? at hp
    split at hp
    · cases ‹Event.enter routine arguments = _›
      exact (harguments _ List.mem_cons_self).elim
    · cases hp
  clip := by
    rintro t s - - -
    rw [Value.clip_segment]
    refine .call rfl nofun (.bind (Q := fun _ => True) (.call rfl nofun (.pure trivial)) ?_)
    exact fun _ _ => .pure (Segment.obeys_common fun _ _ => trivial)
  shift _ _ _ := trivial
  lax _ := trivial
  Good := good
  draw := by
    intro _ routine arguments view body Q hroutine harguments _ hbody
    refine hbody.call (List.all_eq_true.2 fun a ha => (harguments a ha).isShowable) ?_
    intro p hp
    rw [Event.coordinate?_enter hroutine] at hp
    cases hp
  coordinate := by
    intro p body hp hbody
    refine hbody.call (Datum.isShowable_coordinate p decimals) ?_
    rintro _ ⟨⟩
    exact hp
  number _ := .ofExcept fun _ => trivial

/-! ## Pairs of a picture -/

/-- The run of a value's shape ends alike at every level. -/
theorem Value.debug_shape {v : Value α} (h : v.IsConcrete) (w : Window α) :
    (v.shape w .debug).1 = (v.shape w).result :=
  ((DrawingDiscipline.steady α 0).run_shape h w).steady.fst_eq .debug

/-- What is written for a value are points of its shape. -/
theorem forall_written_drawValue {v : Value α} {w : Window α} {good : Point α → Prop}
    (hv : v.IsConcrete)
    (h : ∀ shape, (v.shape w).result = .ok shape → ∀ p ∈ shape.points, good p) (label : String)
    (style : Style) (decimals : Int) :
    ∀ p ∈ (drawValue label v style w decimals).written, good p := by
  let D := DrawingDiscipline.writes good decimals
  refine (D.run_drawValue hv ⟨(D.run_shape hv w).forall_written, ?_⟩ style).forall_written
  intro shape hshape
  rw [Value.debug_shape hv] at hshape
  exact ⟨h shape hshape, fun _ => .report label⟩

/-- The commands of a value are those of its shape. -/
theorem result_drawValue {v : Value α} {w : Window α} {shape : Shape α}
    (h : (v.shape w).result = .ok shape) (label : String) (style : Style) (decimals : Int) :
    (drawValue label v style w decimals).result = (shape.commands label style decimals).result := by
  rw [drawValue, Traced.result_call, Traced.result_bind, h]
  rfl

theorem written_drawNumber (x : α) (decimals : Int) : (drawNumber x decimals).written = [] :=
  ((DrawingDiscipline.writes (fun _ => False) decimals).run_drawNumber x).written_eq_nil

theorem written_drawPoint (p : Point α) (decimals : Int) :
    (drawPoint p decimals).written = [p] := by
  have hbody : (do
      let x ← drawNumber p.x decimals
      let y ← drawNumber p.y decimals
      return "(" ++ x ++ "," ++ y ++ ")" : Traced α String).WritesOnly (fun _ => False)
        fun _ => True := by
    let D := DrawingDiscipline.writes (α := α) (fun _ => False) decimals
    exact D.bind (D.run_drawNumber p.x) fun _ _ => D.bind (D.run_drawNumber p.y) fun _ _ =>
      D.pure trivial
  rw [drawPoint, Traced.written_call (Datum.isShowable_coordinate p decimals), hbody.written_eq_nil]
  rfl

/-- The style of a label in a picture. -/
def Style.of (highlight : List String) (label : String) : Style :=
  if label ∈ highlight then .result else .auxiliary

/-- Values are written one after another, up to the first one that fails. -/
theorem written_drawValues (highlight : List String) (w : Window α) (decimals : Int)
    (entries : List (String × Value α)) :
    (drawValues highlight w decimals entries).written <+:
      entries.flatMap fun entry =>
        (drawValue entry.1 entry.2 (.of highlight entry.1) w decimals).written := by
  induction entries with
  | nil => exact List.prefix_refl _
  | cons entry entries ih =>
    rw [List.flatMap_cons]
    refine Traced.written_bind_prefix rfl fun commands _ => ?_
    rwa [Traced.written_bind_pure]

/-- A picture writes the corners of its window, and then the points of its values in turn. -/
theorem written_picture (current : Settings α) {entries : List (String × Value α)}
    (h : ∀ entry ∈ entries, entry.2.IsConcrete) (highlight : List String)
    (settings? : Option (Settings α)) {w : Window α}
    (hw : Window.ofValues (settings?.getD current) (entries.map (·.2)) = w) :
    (picture current entries highlight settings?).written <+:
      [⟨w.xmin, w.ymin⟩, ⟨w.xmax, w.ymax⟩] ++ entries.flatMap fun entry =>
        (drawValue entry.1 entry.2 (.of highlight entry.1) w
          (settings?.getD current).decimals).written := by
  have hvalues : ∀ v ∈ entries.map (·.2), v.IsConcrete := List.forall_mem_map.2 h
  have hviewport := (DrawingDiscipline.writes (α := α) (fun _ => False) 0).run_viewport hvalues
    (settings?.getD current)
  rw [picture, Traced.written_call (by
    simp [Argument.of, Argument.keyed, (Datum.showsSets_labelled entries).isShowable,
      (Datum.showsSets_texts highlight).isShowable,
      (Datum.showsSets_optional_settings settings?).isShowable])]
  show (viewport _ _ >>= _).written <+: [] ++ ([] ++ ([_] ++ ([_] ++ _)))
  refine Traced.written_bind_prefix hviewport.written_eq_nil fun w' hw' => ?_
  obtain rfl : w' = w := (hviewport.yields w' hw').trans hw
  refine Traced.written_bind_prefix (written_drawNumber _ _) fun _ _ => ?_
  refine Traced.written_bind_prefix (written_drawPoint _ _) fun _ _ => ?_
  refine Traced.written_bind_prefix (written_drawPoint _ _) fun _ _ => ?_
  rw [Traced.written_bind_pure]
  exact written_drawValues _ _ _ _

/-! ## Windows and their values -/

section Rational

open Scalar

variable {w : Window ℚ} {p : Point ℚ}

/-- What lies within a segment of a window lies in the window, up to the tolerance. -/
theorem Window.clears_of_covers {s : Segment ℚ} (hfirst : w.Clears 0 ⟨s.x₁, s.y₁⟩)
    (hsecond : w.Clears 0 ⟨s.x₂, s.y₂⟩) (h : s.covers p = true) : w.Clears (-tolerance) p := by
  obtain ⟨hx, hy⟩ := Bool.and_eq_true_iff.1 h
  rw [between_iff] at hx hy
  constructor
  · linarith [le_min hfirst.left hsecond.left, hx.1]
  · linarith [max_le hfirst.right hsecond.right, hx.2]
  · linarith [le_min hfirst.bottom hsecond.bottom, hy.1]
  · linarith [max_le hfirst.top hsecond.top, hy.2]

/-- The crossings of a line with the sides of a window lie in the window, up to the tolerance. -/
theorem Straight.clears_of_mem_crossed {l : Straight ℚ} (hx : w.xmin ≤ w.xmax)
    (hy : w.ymin ≤ w.ymax) (h : p ∈ w.crossed l) : w.Clears (-tolerance) p := by
  obtain ⟨s, hs, hp⟩ := List.mem_flatMap.1 h
  have hcovers := covers_of_mem_crossing hp
  simp only [Window.sides, List.mem_cons, List.not_mem_nil, or_false] at hs
  rcases hs with rfl | rfl | rfl | rfl <;>
    refine Window.clears_of_covers ?_ ?_ hcovers <;> constructor <;> simp [hx, hy]

theorem Straight.exists_mem_pins (l : Straight ℚ) : ∃ p, p ∈ l.toValue.pins := by
  cases l with
  | line l => exact ⟨_, List.mem_cons_self⟩
  | vertical v => exact ⟨_, List.mem_cons_self⟩

variable {settings : Settings ℚ} {values : List (Value ℚ)} {v : Value ℚ}

/-- What is drawn of a value lies in the window of it and others, up to the tolerance, and keeps the
padding from the sides unless the value is a line. -/
theorem exists_shape_within (hpadding : 0 ≤ settings.padding) (hv : v ∈ values)
    (hconcrete : v.IsConcrete) :
    ∃ shape, (v.shape (.ofValues settings values)).result = .ok shape ∧
      ∀ p ∈ shape.points, (Window.ofValues settings values).Clears (-tolerance) p ∧
        ((∀ l : Straight ℚ, v ≠ l.toValue) →
          (Window.ofValues settings values).Clears settings.padding p) := by
  obtain ⟨shape, hshape, hcases⟩ := Value.exists_shape hconcrete (.ofValues settings values)
  refine ⟨shape, hshape, ?_⟩
  intro p hp
  rcases hcases with ⟨l, rfl, rfl⟩ | ⟨_, hpoints, _⟩
  · -- the window has an anchor of the line in it, so its sides are in order
    obtain ⟨anchor, hanchor⟩ := l.exists_mem_pins
    have hclears : (Window.ofValues settings values).Clears settings.padding anchor :=
      Window.clears_ofValues hv hanchor
    refine ⟨?_, fun hline => absurd rfl (hline l)⟩
    refine Straight.clears_of_mem_crossed ?_ ?_ (Straight.mem_crossed_of_mem_shapeIn hp)
    · linarith [hclears.left, hclears.right]
    · linarith [hclears.bottom, hclears.top]
  · rw [hpoints] at hp
    have hclears : (Window.ofValues settings values).Clears settings.padding p :=
      Window.clears_ofValues hv hp
    have htolerance : (0 : ℚ) < tolerance := tolerance_pos
    exact ⟨hclears.mono (by linarith), fun _ => hclears⟩

/-- A picture of sets writes the corners of the window and then nothing but pairs of coordinates for
its values, in turn. The commands of a value are those of a shape, and the pairs that are written
for it are points of that shape. These lie in the window, widened by the tolerance on each side, and
those of points and segments keep the padding from its sides. -/
theorem written_within_window (current : Settings ℚ) (entries : List (String × Value ℚ))
    (hentries : ∀ entry ∈ entries, entry.2.IsConcrete) (highlight : List String)
    (settings? : Option (Settings ℚ)) (hpadding : 0 ≤ (settings?.getD current).padding) :
    ∃ w, (viewport (entries.map (·.2)) (settings?.getD current)).result = .ok w ∧
      (picture current entries highlight settings?).written <+:
        [⟨w.xmin, w.ymin⟩, ⟨w.xmax, w.ymax⟩] ++ entries.flatMap (fun entry =>
          (drawValue entry.1 entry.2 (.of highlight entry.1) w
            (settings?.getD current).decimals).written) ∧
      ∀ entry ∈ entries, ∀ style, ∃ shape : Shape ℚ,
        (drawValue entry.1 entry.2 style w (settings?.getD current).decimals).result =
            (shape.commands entry.1 style (settings?.getD current).decimals).result ∧
          (drawValue entry.1 entry.2 style w (settings?.getD current).decimals).written ⊆
            shape.points ∧
          ∀ p ∈ shape.points, w.Clears (-tolerance) p ∧
            ((∀ l : Straight ℚ, entry.2 ≠ l.toValue) →
              w.Clears (settings?.getD current).padding p) := by
  have hvalues : ∀ v ∈ entries.map (·.2), v.IsConcrete := List.forall_mem_map.2 hentries
  refine ⟨_, result_viewport hvalues _, ?_, ?_⟩
  · exact written_picture current hentries highlight settings? rfl
  intro entry hentry style
  have hmem : entry.2 ∈ entries.map (·.2) := List.mem_map_of_mem hentry
  have hconcrete := hentries entry hentry
  obtain ⟨shape, hshape, hpoints⟩ := exists_shape_within hpadding hmem hconcrete
  refine ⟨shape, result_drawValue hshape _ _ _, ?_, hpoints⟩
  refine forall_written_drawValue hconcrete ?_ _ _ _
  intro other hother
  obtain rfl := Except.ok.inj (hshape.symm.trans hother)
  exact fun p hp => hp

/-- A line that leaves the window of itself and a segment through two corners. -/
def diagonalEntries : List (String × Value ℚ) :=
  [("a", .line ⟨1, 0⟩), ("s", .segment ⟨0, 0, 2, 1⟩)]

theorem written_within_window_diagonal :
    (∀ entry ∈ diagonalEntries, entry.2.IsConcrete) ∧
      0 ≤ (Settings.default : Settings ℚ).padding ∧
      (picture .default diagonalEntries ["s"] none).written.length = 8 ∧
      ∃ w, (viewport (diagonalEntries.map (·.2)) .default).result = .ok w ∧
        ∀ entry ∈ diagonalEntries, ∀ p ∈ (drawValue entry.1 entry.2 .result w 4).written,
          w.Clears (-tolerance) p := by
  have hentries : ∀ entry ∈ diagonalEntries, entry.2.IsConcrete := by
    intro entry hentry
    simp only [diagonalEntries, List.mem_cons, List.not_mem_nil, or_false] at hentry
    rcases hentry with rfl | rfl <;> nofun
  have hpadding : 0 ≤ (Settings.default : Settings ℚ).padding := by decide +kernel
  obtain ⟨w, hw, _, hpoints⟩ :=
    written_within_window .default diagonalEntries hentries ["s"] none hpadding
  refine ⟨hentries, hpadding, by decide +kernel, w, hw, ?_⟩
  intro entry hentry p hp
  obtain ⟨shape, _, hwritten, hshape⟩ := hpoints entry hentry .result
  exact (hshape p (hwritten hp)).1

end Rational

end Planar
