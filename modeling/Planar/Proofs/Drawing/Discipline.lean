import Planar.Drawing.Picture
import Planar.Proofs.Run.Discipline

/-!
# Disciplines of drawing

A picture is drawn in a few kinds of step: values are intersected with the sides of a window, and
numbers are written. A discipline of drawing is a discipline of intersection that also passes to the
calls that show points, windows and lists. It holds of every picture of sets whose points are good.

* `Datum.ShowsSets` — what the calls of a drawing show;
* `DrawingDiscipline` — a property of runs that passes from steps to drawings;
* `DrawingDiscipline.run_viewport`, `DrawingDiscipline.run_shape` — finding the window of some
  values and the shape of one in it;
* `DrawingDiscipline.run_picture`, `DrawingDiscipline.run_document` — drawing keeps every
  discipline;
* `DrawingDiscipline.confined` — only certain faults and warnings occur.
-/

namespace Planar

variable {α β γ : Type}

/-! ## What a drawing shows -/

/-- Whether every value that a datum shows is a set; lists and tuples are looked into. -/
inductive Datum.ShowsSets : Datum α → Prop
  | nothing : ShowsSets .nothing
  | integer (n : Int) : ShowsSets (.integer n)
  | number (x : α) : ShowsSets (.number x)
  | text (s : String) : ShowsSets (.text s)
  | settings (s : Settings α) : ShowsSets (.settings s)
  | valuesOf (vs : List (Value α)) : ShowsSets (.valuesOf vs)
  | dict (entries : List (Datum α × Datum α)) : ShowsSets (.dict entries)
  | value {v : Value α} : v.IsConcrete → ShowsSets (.value v)
  | list {items : List (Datum α)} : (∀ d ∈ items, ShowsSets d) → ShowsSets (.list items)
  | tuple {items : List (Datum α)} : (∀ d ∈ items, ShowsSets d) → ShowsSets (.tuple items)

attribute [simp] Datum.ShowsSets.nothing Datum.ShowsSets.integer Datum.ShowsSets.number
  Datum.ShowsSets.text Datum.ShowsSets.settings Datum.ShowsSets.valuesOf

namespace Datum

@[simp]
theorem showsSets_labelled (entries : List (String × Value α)) : (labelled entries).ShowsSets :=
  .dict _

@[simp]
theorem showsSets_pair (p : Point α) : (pair p).ShowsSets := .tuple (by simp)

@[simp]
theorem showsSets_window (w : Window α) : (window w).ShowsSets := .tuple (by simp)

@[simp]
theorem showsSets_pairs (ps : List (Point α)) : (pairs ps).ShowsSets := .list (by simp)

@[simp]
theorem showsSets_texts (ss : List String) : (texts ss : Datum α).ShowsSets := .list (by simp)

theorem showsSets_values {vs : List (Value α)} (h : ∀ v ∈ vs, v.IsConcrete) :
    (values vs).ShowsSets := by
  refine .list ?_
  intro d hd
  obtain ⟨v, hv, rfl⟩ := List.mem_map.1 hd
  exact .value (h v hv)

@[simp]
theorem showsSets_optional_ends (ends? : Option (Point α × Point α)) :
    (optional ends ends?).ShowsSets := by
  cases ends? with
  | none => exact .nothing
  | some e => exact .tuple (by simp)

@[simp]
theorem showsSets_optional_settings (settings? : Option (Settings α)) :
    (optional settings settings?).ShowsSets := by
  cases settings? with
  | none => exact .nothing
  | some s => exact .settings s

@[simp]
theorem showsSets_optional_text (text? : Option String) :
    (optional text text? : Datum α).ShowsSets := by
  cases text? with
  | none => exact .nothing
  | some s => exact .text s

end Datum

/-! ## Faults and warnings -/

/-- A sequence whose first part yields a result goes on with the second part. -/
theorem Traced.bind_of_ok {run : Traced α β} {next : β → Traced α γ} {level : Level} {b : β}
    {events : List (Event α)} (h : run level = (.ok b, events)) :
    (run >>= next) level = ((next b level).1, events ++ (next b level).2) := by
  show andThen run next level = _
  simp [andThen, h]

theorem Traced.call_warning (routine : Routine) (arguments : List (Argument α)) (view : β → Datum α)
    (body : Traced α β) : call routine arguments view body .warning = body .warning :=
  call_quiet routine arguments view body (by decide)

/-- Whether a run of which only warnings are wanted fails with certain faults only, reports certain
events only, and yields what has the property `Q`. -/
structure Traced.Confined (faults : Fault → Prop) (events : Event α → Prop) (run : Traced α β)
    (Q : β → Prop) : Prop where
  fails : ∀ fault, run.result = .error fault → faults fault
  reports : ∀ event ∈ (run .warning).2, events event
  yields : ∀ b, run.result = .ok b → Q b

namespace Traced.Confined

variable {faults : Fault → Prop} {events : Event α → Prop} {run : Traced α β} {Q : β → Prop}

theorem pure {b : β} (h : Q b) : Confined faults events (Pure.pure b : Traced α β) Q := by
  refine ⟨nofun, List.forall_mem_nil _, ?_⟩
  rintro _ ⟨⟩
  exact h

theorem ofExcept {result : Except Fault β} (h : ∀ fault, result = .error fault → faults fault) :
    Confined faults events (Traced.ofExcept result : Traced α β) fun _ => True := by
  cases result with
  | error fault =>
    refine ⟨?_, List.forall_mem_nil _, nofun⟩
    rintro _ ⟨⟩
    exact h fault rfl
  | ok b => exact .pure trivial

theorem bind {next : β → Traced α γ} {R : γ → Prop} (h : Confined faults events run Q)
    (hnext : ∀ b, Q b → Confined faults events (next b) R) :
    Confined faults events (run >>= next) R := by
  have hresult := h.yields
  have hfault := h.fails
  have hreports := h.reports
  unfold result at hresult hfault
  cases hrun : run .warning with
  | mk first reported =>
    rw [hrun] at hresult hfault hreports
    cases first with
    | error fault =>
      have hbind : (run >>= next) .warning = (.error fault, reported) := by
        show andThen run next .warning = _
        simp [andThen, hrun]
      constructor
      · intro other hother
        rw [result, hbind] at hother
        obtain rfl : fault = other := Except.error.inj hother
        exact hfault fault rfl
      · rwa [hbind]
      · intro c hc
        rw [result, hbind] at hc
        cases hc
    | ok b =>
      have hrest := hnext b (hresult b rfl)
      have hbind : (run >>= next) .warning = _ := bind_of_ok hrun
      constructor
      · intro fault hf
        rw [result, hbind] at hf
        exact hrest.fails fault hf
      · intro event he
        rw [hbind] at he
        rcases List.mem_append.1 he with he | he
        · exact hreports event he
        · exact hrest.reports event he
      · intro c hc
        rw [result, hbind] at hc
        exact hrest.yields c hc

theorem call {routine : Routine} {arguments : List (Argument α)} {view : β → Datum α}
    (h : Confined faults events run Q) :
    Confined faults events (Traced.call routine arguments view run) Q := by
  constructor
  · rw [result_call]
    exact h.fails
  · rw [call_warning]
    exact h.reports
  · rw [result_call]
    exact h.yields

/-- A run that can neither fail nor report anything just yields a result. -/
theorem exists_of_quiet (h : Confined (fun _ => False) (fun _ => False) run Q) :
    ∃ b, run .warning = (.ok b, []) ∧ Q b := by
  have hreports := List.eq_nil_iff_forall_not_mem.2 h.reports
  cases hresult : run.result with
  | error fault => exact (h.fails fault hresult).elim
  | ok b => exact ⟨b, Prod.ext hresult hreports, h.yields b hresult⟩

end Traced.Confined

variable [Scalar α]

/-! ## Disciplines -/

/-- A discipline that holds of drawings whose numbers have so many places: it asks nothing of
segments, and passes to the calls that show sets, points and windows, to writing a number, and to
writing the coordinates of a good point. -/
structure DrawingDiscipline (α : Type) [Scalar α] (decimals : Int) extends Discipline α where
  lax (s : Segment α) : rule s
  Good : Point α → Prop
  draw {β : Type} {routine : Routine} {arguments : List (Argument α)} {view : β → Datum α}
    {body : Traced α β} {Q : β → Prop} :
    routine ≠ .task .coordinate → (∀ a ∈ arguments, a.datum.ShowsSets) →
      (∀ b, Q b → (view b).ShowsSets) → Run body Q → Run (.call routine arguments view body) Q
  coordinate {p : Point α} {body : Traced α String} : Good p → Run body (fun _ => True) →
    Run (.call (.task .coordinate) [.of (.pair p), .of (.integer decimals)] .text body)
      fun _ => True
  number (x : α) : Run (.ofExcept (drawnNumber x decimals)) fun _ => True

/-- The points that pin a set to the plane. -/
def Value.pins (v : Value α) : List (Point α) := v.anchors?.getD []

/-- The window of some sets. -/
def Window.ofValues (settings : Settings α) (values : List (Value α)) : Window α :=
  .ofAnchors settings (values.flatMap Value.pins)

namespace DrawingDiscipline

variable {decimals : Int} (D : DrawingDiscipline α decimals)

theorem fits {v : Value α} (h : v.IsConcrete) : D.Fits v := by
  cases v with
  | segment s => exact D.lax s
  | placeholder => exact absurd rfl h
  | _ => trivial

theorem run_intersect {a b : Value α} (ha : a.IsConcrete) (hb : b.IsConcrete) :
    D.Run (a.intersect b) Value.IsConcrete :=
  D.imp (D.toDiscipline.run_intersect (D.fits ha) (D.fits hb)) fun _ h => h.isConcrete

/-! ## Windows -/

theorem run_anchors {v : Value α} (h : v.IsConcrete) : D.Run v.anchors (· = v.pins) := by
  refine D.draw nofun ?_ (fun ps _ => Datum.showsSets_pairs ps) ?_
  · intro a ha
    obtain rfl := List.mem_singleton.1 ha
    exact .value h
  · cases v with
    | placeholder => exact absurd rfl h
    | _ => exact D.pure rfl

theorem run_mapM_anchors {values : List (Value α)} (h : ∀ v ∈ values, v.IsConcrete) :
    D.Run (values.mapM Value.anchors) fun rows => rows.flatten = values.flatMap Value.pins := by
  induction values with
  | nil => exact D.pure rfl
  | cons v values ih =>
    rw [List.mapM_cons]
    refine D.bind (D.run_anchors (h v List.mem_cons_self)) ?_
    rintro _ rfl
    refine D.bind (ih fun v hv => h v (List.mem_cons_of_mem _ hv)) fun rows hrows => D.pure ?_
    rw [List.flatten_cons, List.flatMap_cons, hrows]

theorem run_viewport {values : List (Value α)} (h : ∀ v ∈ values, v.IsConcrete)
    (settings : Settings α) :
    D.Run (viewport values settings) (· = Window.ofValues settings values) := by
  refine D.draw nofun (by simp [Argument.of]) (fun w _ => Datum.showsSets_window w) ?_
  refine D.bind (D.run_mapM_anchors h) fun rows hrows => D.pure ?_
  rw [hrows, Window.ofValues]

/-! ## Shapes -/

theorem run_border (w : Window α) : D.Run w.border (· = w.sides) := by
  refine D.draw nofun (by simp [Argument.of]) ?_ (D.pure rfl)
  intro sides _
  refine Datum.showsSets_values ?_
  intro v hv
  obtain ⟨s, _, rfl⟩ := List.mem_map.1 hv
  nofun

theorem run_crossings {v : Value α} (h : v.IsConcrete) (hits : List (Point α))
    (sides : List (Segment α)) : D.Run (crossings v hits sides) fun _ => True := by
  induction sides generalizing hits with
  | nil => exact D.pure trivial
  | cons side sides ih =>
    refine D.bind (D.run_intersect h (b := .segment side) nofun) fun common hcommon => ?_
    exact D.bind (D.run_anchors hcommon) fun points _ => ih _

theorem run_clipToWindow {v : Value α} (h : v.IsConcrete) (w : Window α) :
    D.Run (clipToWindow v w) fun _ => True := by
  refine D.draw nofun ?_ (fun ends? _ => Datum.showsSets_optional_ends ends?) ?_
  · intro a ha
    simp only [List.mem_cons, List.not_mem_nil, or_false] at ha
    rcases ha with rfl | rfl
    · exact .value h
    · exact Datum.showsSets_window w
  · refine D.bind (D.run_border w) fun sides _ => ?_
    exact D.bind (D.run_crossings h [] sides) fun _ _ => D.pure trivial

theorem run_shape {v : Value α} (h : v.IsConcrete) (w : Window α) :
    D.Run (v.shape w) fun _ => True := by
  cases v with
  | empty => exact D.pure trivial
  | point p => exact D.bind (D.run_anchors h) fun _ _ => D.pure trivial
  | segment s => exact D.bind (D.run_anchors h) fun _ _ => D.pure trivial
  | line _ | vertical _ =>
    refine D.bind (D.run_clipToWindow h w) fun ends? _ => ?_
    cases ends? with
    | none => exact D.pure trivial
    | some ends => exact D.pure trivial
  | placeholder => exact absurd rfl h

/-! ## Commands -/

theorem run_drawNumber (x : α) : D.Run (drawNumber x decimals) fun _ => True :=
  D.draw nofun (by simp [Argument.number, Argument.of]) (fun s _ => .text s) (D.number x)

theorem run_drawPoint {p : Point α} (h : D.Good p) : D.Run (drawPoint p decimals) fun _ => True :=
  D.coordinate h (D.bind (D.run_drawNumber p.x) fun _ _ =>
    D.bind (D.run_drawNumber p.y) fun _ _ => D.pure trivial)

/-- Whether the points of a shape are good and, if it is outside the window, a warning about that
keeps to the discipline. -/
def Accepts (label : String) (shape : Shape α) : Prop :=
  (∀ p ∈ shape.points, D.Good p) ∧
    (shape = .outside → D.Run (.report (.skipped label)) fun _ => True)

theorem run_commands {shape : Shape α} {label : String} (h : D.Accepts label shape)
    (style : Style) : D.Run (shape.commands label style decimals) fun _ => True := by
  have three {a b : Point α} (ha : D.Good a) (hb : D.Good b)
      (next : String → String → String → List String) :
      D.Run (do
        let start ← drawPoint a decimals
        let stop ← drawPoint b decimals
        let place ← drawPoint b decimals
        return next start stop place) fun _ => True :=
    D.bind (D.run_drawPoint ha) fun _ _ => D.bind (D.run_drawPoint hb) fun _ _ =>
      D.bind (D.run_drawPoint hb) fun _ _ => D.pure trivial
  cases shape with
  | nothing => exact D.pure trivial
  | outside => exact D.bind (h.2 rfl) fun _ _ => D.pure trivial
  | dot p =>
    have hp := h.1 p (List.mem_singleton_self p)
    exact D.bind (D.run_drawPoint hp) fun _ _ => D.bind (D.run_drawPoint hp) fun _ _ =>
      D.pure trivial
  | stroke a b => exact three (h.1 a (by simp [Shape.points])) (h.1 b (by simp [Shape.points])) _
  | chord a b => exact three (h.1 a (by simp [Shape.points])) (h.1 b (by simp [Shape.points])) _

theorem run_drawValue {label : String} {v : Value α} {w : Window α} (hv : v.IsConcrete)
    (h : D.Run (v.shape w) (D.Accepts label)) (style : Style) :
    D.Run (drawValue label v style w decimals) fun _ => True := by
  refine D.draw nofun ?_ (fun ss _ => Datum.showsSets_texts ss) ?_
  · intro a ha
    simp only [List.mem_cons, List.not_mem_nil, or_false] at ha
    rcases ha with rfl | rfl | rfl | rfl | rfl
    · exact .text label
    · exact .value hv
    · exact .text style.name
    · exact Datum.showsSets_window w
    · exact .integer decimals
  · exact D.bind h fun shape hshape => D.run_commands hshape style

theorem run_drawValues {highlight : List String} {w : Window α}
    {entries : List (String × Value α)} (hentries : ∀ entry ∈ entries, entry.2.IsConcrete)
    (h : ∀ entry ∈ entries, D.Run (entry.2.shape w) (D.Accepts entry.1)) :
    D.Run (drawValues highlight w decimals entries) fun _ => True := by
  induction entries with
  | nil => exact D.pure trivial
  | cons entry entries ih =>
    refine D.bind (D.run_drawValue (hentries entry List.mem_cons_self)
      (h entry List.mem_cons_self) _) fun _ _ => ?_
    refine D.bind (ih ?_ ?_) fun _ _ => D.pure trivial
    · exact fun entry hentry => hentries entry (List.mem_cons_of_mem _ hentry)
    · exact fun entry hentry => h entry (List.mem_cons_of_mem _ hentry)

/-! ## Pictures -/

/-- Drawing a picture is one call whose body keeps to the discipline. -/
theorem exists_body_picture {current : Settings α} {entries : List (String × Value α)}
    {settings? : Option (Settings α)} {w : Window α} (highlight : List String)
    (hentries : ∀ entry ∈ entries, entry.2.IsConcrete)
    (hdecimals : (settings?.getD current).decimals = decimals)
    (hw : Window.ofValues (settings?.getD current) (entries.map (·.2)) = w)
    (hlow : D.Good ⟨w.xmin, w.ymin⟩) (hhigh : D.Good ⟨w.xmax, w.ymax⟩)
    (h : ∀ entry ∈ entries, D.Run (entry.2.shape w) (D.Accepts entry.1)) :
    ∃ body, picture current entries highlight settings? =
        .call (.task .picture)
          [.of (.labelled entries), .keyed "highlight" (.texts highlight),
            .keyed "config" (.optional .settings settings?)] .text body ∧
      D.Run body fun _ => True := by
  subst hdecimals hw
  have hvalues : ∀ v ∈ entries.map (·.2), v.IsConcrete := List.forall_mem_map.2 hentries
  refine ⟨_, rfl, D.bind (D.run_viewport hvalues _) ?_⟩
  rintro _ rfl
  refine D.bind (D.run_drawNumber _) fun _ _ => ?_
  refine D.bind (D.run_drawPoint hlow) fun _ _ => D.bind (D.run_drawPoint hhigh) fun _ _ => ?_
  exact D.bind (D.run_drawValues hentries h) fun _ _ => D.pure trivial

theorem run_picture {current : Settings α} {entries : List (String × Value α)}
    {settings? : Option (Settings α)} {w : Window α} (highlight : List String)
    (hentries : ∀ entry ∈ entries, entry.2.IsConcrete)
    (hdecimals : (settings?.getD current).decimals = decimals)
    (hw : Window.ofValues (settings?.getD current) (entries.map (·.2)) = w)
    (hlow : D.Good ⟨w.xmin, w.ymin⟩) (hhigh : D.Good ⟨w.xmax, w.ymax⟩)
    (h : ∀ entry ∈ entries, D.Run (entry.2.shape w) (D.Accepts entry.1)) :
    D.Run (picture current entries highlight settings?) fun _ => True := by
  obtain ⟨body, hpicture, hbody⟩ :=
    D.exists_body_picture highlight hentries hdecimals hw hlow hhigh h
  rw [hpicture]
  exact D.draw nofun (by simp [Argument.of, Argument.keyed]) (fun s _ => .text s) hbody

theorem run_document {current : Settings α} {entries : List (String × Value α)}
    {highlight : List String} {settings? : Option (Settings α)} (title : Option String)
    (h : D.Run (picture current entries highlight settings?) fun _ => True) :
    D.Run (document current entries highlight title settings?) fun _ => True := by
  refine D.draw nofun (by simp [Argument.of, Argument.keyed]) (fun s _ => .text s) ?_
  exact D.bind h fun _ _ => D.pure trivial

end DrawingDiscipline

/-- The discipline of drawings that fail with certain faults only, among them those of writing a
number, and that report certain events only. -/
def DrawingDiscipline.confined {decimals : Int} (faults : Fault → Prop) (events : Event α → Prop)
    (h : ∀ x : α, ∀ fault, drawnNumber x decimals = .error fault → faults fault) :
    DrawingDiscipline α decimals where
  rule _ := True
  Run := Traced.Confined faults events
  pure := .pure
  bind := .bind
  call _ _ _ hbody := hbody.call
  clip := by
    rintro t s - - -
    rw [Value.clip_segment]
    refine .call (.bind (Q := fun _ => True) (.call (.pure trivial)) fun _ _ => .pure ?_)
    exact Segment.obeys_common fun _ _ => trivial
  shift _ _ _ := trivial
  lax _ := trivial
  Good _ := True
  draw _ _ _ hbody := hbody.call
  coordinate _ hbody := hbody.call
  number x := .ofExcept (h x)

end Planar
