import Planar.Proofs.Run.Discipline

/-!
# What the reports of a run show

A run that wants every event reports what each of its calls is given and yields. If its events are
as assumed, then they are as promised: `Traced.Keeps` says so of a run, and `Discipline.reports`
makes it a discipline, given what follows for the events of a single call.
-/

namespace Planar

variable {α β γ : Type}

/-- The value that a datum is. -/
def Datum.value? : Datum α → Option (Value α)
  | value v => some v
  | _ => none

namespace Event

/-- The values that an event shows among the arguments or as the result of a call. -/
def shown : Event α → List (Value α)
  | enter _ arguments => arguments.filterMap (·.datum.value?)
  | leave _ result => result.value?.toList
  | failed _ | skipped _ => []

/-- The report that a segment is going to be clipped to another. -/
def clips (t s : Segment α) : Event α :=
  enter (.ofValue .segment .clip) [.value (.segment t), .value (.segment s)]

/-- The report that clipping a segment yields a value. -/
def clipped (v : Value α) : Event α := leave (.ofValue .segment .clip) (.value v)

end Event

theorem Datum.Obeys.value? {rule : Segment α → Prop} {d : Datum α} (h : d.Obeys rule) {v : Value α}
    (hv : d.value? = some v) : v.Obeys rule := by
  cases d with
  | value w =>
    cases hv
    exact h
  | _ => cases hv

namespace Traced

/-- Whether a run that succeeds has a result with the property `Q` and events that are as promised,
provided that they are as assumed. -/
def Keeps (assumed promised : Event α → Prop) (run : Traced α β) (Q : β → Prop) : Prop :=
  ∀ b events, run .debug = (.ok b, events) → (∀ event ∈ events, assumed event) →
    Q b ∧ ∀ event ∈ events, promised event

namespace Keeps

variable {assumed promised : Event α → Prop} {run : Traced α β} {Q : β → Prop}

theorem pure {b : β} (h : Q b) : Keeps assumed promised (Pure.pure b) Q := by
  rintro _ _ ⟨⟩ _
  exact ⟨h, nofun⟩

theorem bind {next : β → Traced α γ} {R : γ → Prop} (h : Keeps assumed promised run Q)
    (hnext : ∀ b, Q b → Keeps assumed promised (next b) R) :
    Keeps assumed promised (run >>= next) R := by
  intro c events hrun hassumed
  have hrun : andThen run next .debug = (.ok c, events) := hrun
  unfold andThen at hrun
  split at hrun
  case h_1 b before hfirst =>
    obtain ⟨hc, rfl⟩ := Prod.mk.inj hrun
    obtain ⟨hb, hbefore⟩ := h b before hfirst fun event he =>
      hassumed event (List.mem_append_left _ he)
    obtain ⟨hR, hafter⟩ := hnext b hb c _ (Prod.ext hc rfl) fun event he =>
      hassumed event (List.mem_append_right _ he)
    refine ⟨hR, ?_⟩
    intro event he
    rcases List.mem_append.1 he with he | he
    · exact hbefore event he
    · exact hafter event he
  case h_2 => cases (Prod.mk.inj hrun).1

/-- A call adds two events to those of its body. -/
theorem call {routine : Routine} {arguments : List (Argument α)} {view : β → Datum α}
    {R : β → Prop} (h : Keeps assumed promised run Q)
    (hcall : ∀ b, Q b → assumed (.enter routine arguments) → assumed (.leave routine (view b)) →
      R b ∧ promised (.enter routine arguments) ∧ promised (.leave routine (view b))) :
    Keeps assumed promised (Traced.call routine arguments view run) R := by
  intro b events hrun hassumed
  unfold Traced.call at hrun
  rw [if_pos (by decide)] at hrun
  split at hrun
  · split at hrun
    case h_1 c inner hbody =>
      split at hrun
      · cases hrun
        obtain ⟨hb, hinner⟩ := h b inner hbody fun event he =>
          hassumed event (by simp [he])
        obtain ⟨hR, henter, hleave⟩ := hcall b hb (hassumed _ (by simp)) (hassumed _ (by simp))
        refine ⟨hR, ?_⟩
        intro event he
        simp only [List.cons_append, List.mem_cons, List.mem_append, List.not_mem_nil,
          or_false] at he
        rcases he with rfl | he | rfl
        · exact henter
        · exact hinner event he
        · exact hleave
      · cases hrun
    case h_2 => cases hrun
  · cases hrun

end Keeps

end Traced

variable [Scalar α]

/-- The discipline of runs whose events are as promised if they are as assumed. An event that shows
only values that obey the rule has to keep the promise, and so has the clipping of one segment to
another, of which the beginning and the end are known. -/
def Discipline.reports (rule : Segment α → Prop) (assumed promised : Event α → Prop)
    (hshift : ∀ s : Segment α, ∀ dx dy, rule s → rule ⟨s.x₁ + dx, s.y₁ + dy, s.x₂ + dx, s.y₂ + dy⟩)
    (hplain : ∀ event, (∀ v ∈ event.shown, v.Obeys rule) → (∀ t s, event ≠ .clips t s) →
      assumed event → promised event)
    (hclip : ∀ t s : Segment α, t.support.Agrees s.support → rule t → rule s →
      assumed (.clips t s) → assumed (.clipped (t.common s)) →
        (∀ r, t.common s = .segment r → rule r) ∧ promised (.clips t s)) : Discipline α where
  rule := rule
  Run := Traced.Keeps assumed promised
  pure := .pure
  bind := .bind
  call := by
    intro _ routine arguments view body Q hroutine harguments hview hbody
    refine hbody.call fun b hb henter hleave => ⟨hb, ?_, ?_⟩
    · refine hplain _ ?_ ?_ henter
      · intro v hv
        obtain ⟨a, ha, hvalue⟩ := List.mem_filterMap.1 hv
        exact (harguments a ha).value? hvalue
      · intro t s heq
        exact hroutine (Event.enter.inj heq).1
    · refine hplain _ ?_ nofun hleave
      intro v hv
      exact (hview b hb).value? (Option.mem_toList.1 hv)
  clip := by
    intro t s hagrees ht hs
    rw [Value.clip_segment]
    have hcheck : Traced.Keeps assumed promised t.checkVertical fun _ => True := by
      refine (Traced.Keeps.pure (Q := fun _ => True) trivial).call fun b _ henter hleave =>
        ⟨trivial, ?_, ?_⟩
      · refine hplain _ ?_ nofun henter
        intro v hv
        obtain rfl := List.mem_singleton.1 hv
        exact ht
      · exact hplain _ nofun nofun hleave
    refine (hcheck.bind fun _ _ => .pure (Q := (· = t.common s)) rfl).call ?_
    rintro _ rfl henter hleave
    obtain ⟨hrule, hpromised⟩ := hclip t s hagrees ht hs henter hleave
    have hobeys := Segment.obeys_common hrule
    refine ⟨hobeys, hpromised, hplain _ ?_ nofun hleave⟩
    intro v hv
    obtain rfl := List.mem_singleton.1 hv
    exact hobeys
  shift {s} dx dy := hshift s dx dy

end Planar
