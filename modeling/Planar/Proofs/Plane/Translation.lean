import Planar.Proofs.Plane.Commutation
import Planar.Proofs.Plane.Dispatch

/-!
# Moving the plane

Over the rationals, to move two values is to move their intersection: every test compares
coordinates that move by the same amount, and the offset cancels. There is one exception. Two lines
of close slopes are told apart by their intercepts, that is, by where they meet the vertical axis;
if the slopes are not equal, the axis of a moved plane meets them elsewhere.

* `Value.moved` — a value moved by an offset;
* `Value.NearlyParallel` — two values whose lines have close but different slopes;
* `Segment.support_moved`, `Straight.meet_moved`, `Segment.common_moved` — the steps of an
  intersection commute with moving;
* `Value.result_intersect_moved` — and so does the whole of it;
* `shift_equivariant` — the laws of moving;
* `Line.exists_moved_ne` — the exception cannot be left out.
-/

namespace Planar

open Scalar

/-! ## Moved values -/

section Definitions

variable (dx dy : ℚ)

/-- A point moved by an offset. -/
def Point.moved (p : Point ℚ) : Point ℚ := ⟨p.x + dx, p.y + dy⟩

/-- A line moved by an offset; its slope stays. -/
def Line.moved (l : Line ℚ) : Line ℚ := ⟨l.slope, l.intercept + dy - l.slope * dx⟩

/-- A vertical line moved by an offset. -/
def Vertical.moved (v : Vertical ℚ) : Vertical ℚ := ⟨v.x + dx⟩

/-- A segment moved by an offset. -/
def Segment.moved (s : Segment ℚ) : Segment ℚ := ⟨s.x₁ + dx, s.y₁ + dy, s.x₂ + dx, s.y₂ + dy⟩

/-- A line of any direction moved by an offset. -/
def Straight.moved : Straight ℚ → Straight ℚ
  | line l => line (l.moved dx dy)
  | vertical v => vertical (v.moved dx)

/-- A value moved by an offset; the placeholder stays. -/
def Value.moved : Value ℚ → Value ℚ
  | empty => empty
  | point p => point (p.moved dx dy)
  | line l => line (l.moved dx dy)
  | vertical v => vertical (v.moved dx)
  | segment s => segment (s.moved dx dy)
  | placeholder => placeholder

end Definitions

/-- Whether two lines have close but different slopes. -/
def Straight.NearlyParallel : Straight ℚ → Straight ℚ → Prop
  | line l, line k => close l.slope k.slope = true ∧ l.slope ≠ k.slope
  | _, _ => False

/-- The line through a value that has one. -/
def Value.support? : Value ℚ → Option (Straight ℚ)
  | line l => some (.line l)
  | vertical v => some (.vertical v)
  | segment s => some s.support
  | _ => none

/-- Whether two values have lines through them with close but different slopes. -/
def Value.NearlyParallel (a b : Value ℚ) : Prop :=
  ∃ l ∈ a.support?, ∃ k ∈ b.support?, l.NearlyParallel k

instance (l k : Straight ℚ) : Decidable (l.NearlyParallel k) :=
  match l, k with
  | .line l, .line k => inferInstanceAs (Decidable (close l.slope k.slope = true ∧ l.slope ≠ k.slope))
  | .line _, .vertical _ | .vertical _, _ => .isFalse id

instance (a b : Value ℚ) : Decidable (a.NearlyParallel b) :=
  inferInstanceAs (Decidable (∃ l ∈ a.support?, ∃ k ∈ b.support?, l.NearlyParallel k))

theorem Straight.NearlyParallel.symm {l k : Straight ℚ} (h : l.NearlyParallel k) :
    k.NearlyParallel l := by
  cases l with
  | vertical v => exact h.elim
  | line l =>
    cases k with
    | vertical v => exact h.elim
    | line k =>
      obtain ⟨hclose, hne⟩ := h
      exact ⟨(close_comm _ _).trans hclose, hne.symm⟩

variable {dx dy : ℚ}

namespace Value

theorem shifted?_eq_moved {v : Value ℚ} (h : v.IsConcrete) :
    v.shifted? dx dy = some (v.moved dx dy) := by
  cases v with
  | placeholder => exact absurd rfl h
  | _ => rfl

theorem IsConcrete.moved {v : Value ℚ} (h : v.IsConcrete) : (v.moved dx dy).IsConcrete := by
  cases v with
  | placeholder => exact absurd rfl h
  | _ => nofun

@[simp]
theorem kind_moved (v : Value ℚ) : (v.moved dx dy).kind = v.kind := by
  cases v <;> rfl

/-- Moving by nothing changes nothing. -/
@[simp]
theorem moved_zero (v : Value ℚ) : v.moved 0 0 = v := by
  cases v <;> simp [moved, Point.moved, Line.moved, Vertical.moved, Segment.moved]

/-- Moving twice is moving by the sum of the offsets. -/
theorem moved_moved (v : Value ℚ) (dx' dy' : ℚ) :
    (v.moved dx dy).moved dx' dy' = v.moved (dx + dx') (dy + dy') := by
  cases v with
  | line l =>
    have hintercept : l.intercept + dy - l.slope * dx + dy' - l.slope * dx' =
        l.intercept + (dy + dy') - l.slope * (dx + dx') := by ring
    simp [moved, Line.moved, hintercept]
  | _ => simp [moved, Point.moved, Vertical.moved, Segment.moved, add_assoc]

theorem moved_ite {c : Prop} [Decidable c] (v w : Value ℚ) :
    (if c then v else w).moved dx dy = if c then v.moved dx dy else w.moved dx dy :=
  apply_ite (Value.moved dx dy) c v w

end Value

/-! ## Points and lines -/

namespace Point

theorem atPoint_moved (p q : Point ℚ) :
    (p.moved dx dy).atPoint (q.moved dx dy) = (p.atPoint q).moved dx dy := by
  have hclose : pointClose (p.x + dx) (p.y + dy) (q.x + dx) (q.y + dy) =
      pointClose p.x p.y q.x q.y := pointClose_add_right ..
  rw [atPoint, atPoint, Value.moved_ite, ← hclose]
  rfl

theorem atLine_moved (p : Point ℚ) (l : Line ℚ) :
    (p.moved dx dy).atLine (l.moved dx dy) = (p.atLine l).moved dx dy := by
  have hheight : l.slope * (p.x + dx) + (l.intercept + dy - l.slope * dx) =
      l.slope * p.x + l.intercept + dy := by ring
  simp only [atLine, moved, Line.moved, hheight, close_add_right, Value.moved_ite]
  rfl

theorem atVertical_moved (p : Point ℚ) (v : Vertical ℚ) :
    (p.moved dx dy).atVertical (v.moved dx) = (p.atVertical v).moved dx dy := by
  simp only [atVertical, moved, Vertical.moved, close_add_right, Value.moved_ite]
  rfl

theorem within_moved (p : Point ℚ) (s : Segment ℚ) :
    (p.moved dx dy).within (s.moved dx dy) = (p.within s).moved dx dy := by
  simp only [within, moved, Segment.moved, between_add_right, Value.moved_ite]
  rfl

theorem result_intersectStraight_moved (p : Point ℚ) (l : Straight ℚ) :
    ((p.moved dx dy).intersectStraight (l.moved dx dy)).result =
      (p.intersectStraight l).result.map (Value.moved dx dy) := by
  cases l with
  | line l => exact congrArg Except.ok (p.atLine_moved l)
  | vertical v => exact congrArg Except.ok (p.atVertical_moved v)

end Point

namespace Line

theorem atVertical_moved (l : Line ℚ) (v : Vertical ℚ) :
    (l.moved dx dy).atVertical (v.moved dx) = (l.atVertical v).moved dx dy := by
  have hheight : l.slope * (v.x + dx) + (l.intercept + dy - l.slope * dx) =
      l.slope * v.x + l.intercept + dy := by ring
  simp [atVertical, moved, Vertical.moved, Value.moved, Point.moved, hheight]

/-- Two lines of equal slopes are moved up by the same amount, and two of slopes that are not close
cross in the moved point. -/
theorem atLine_moved {l k : Line ℚ} (h : close l.slope k.slope = true → l.slope = k.slope) :
    (l.moved dx dy).atLine (k.moved dx dy) = (l.atLine k).moved dx dy := by
  by_cases hclose : close l.slope k.slope = true
  · have hslope := h hclose
    have hintercept : close (l.moved dx dy).intercept (k.moved dx dy).intercept =
        close l.intercept k.intercept := by
      rw [← close_add_right l.intercept k.intercept (dy - l.slope * dx)]
      simp only [moved, hslope, add_sub_assoc]
    have hmoved : close (l.moved dx dy).slope (k.moved dx dy).slope = true := hclose
    rw [atLine, atLine, if_pos hmoved, if_pos hclose, hintercept, Value.moved_ite]
    rfl
  · have hmoved : ¬close (l.moved dx dy).slope (k.moved dx dy).slope = true := hclose
    have hne : l.slope - k.slope ≠ 0 := by
      intro hzero
      rw [sub_eq_zero.1 hzero, close_self] at hclose
      exact hclose rfl
    have hx : ((k.moved dx dy).intercept - (l.moved dx dy).intercept) / (l.slope - k.slope) =
        (k.intercept - l.intercept) / (l.slope - k.slope) + dx := by
      simp only [moved]
      field_simp
      ring
    have hheight (x : ℚ) : l.slope * (x + dx) + (l.moved dx dy).intercept =
        l.slope * x + l.intercept + dy := by
      simp only [moved]
      ring
    rw [atLine, atLine, if_neg hmoved, if_neg hclose]
    show Value.point ⟨_, _⟩ = Value.point ⟨_, _⟩
    dsimp only
    rw [show (l.moved dx dy).slope = l.slope from rfl, show (k.moved dx dy).slope = k.slope from rfl,
      hx, hheight]

end Line

theorem Vertical.atVertical_moved (v w : Vertical ℚ) :
    (v.moved dx).atVertical (w.moved dx) = (v.atVertical w).moved dx dy := by
  simp only [atVertical, moved, close_add_right, Value.moved_ite]
  rfl

/-- Moved lines meet in the moved place. -/
theorem Straight.meet_moved {l k : Straight ℚ} (h : ¬l.NearlyParallel k) :
    (l.moved dx dy).meet (k.moved dx dy) = (l.meet k).moved dx dy := by
  cases l with
  | line l =>
    cases k with
    | line k =>
      apply Line.atLine_moved
      intro hclose
      by_contra hne
      exact h ⟨hclose, hne⟩
    | vertical v => exact l.atVertical_moved v
  | vertical v =>
    cases k with
    | line l => exact l.atVertical_moved v
    | vertical w => exact v.atVertical_moved w

/-! ## Segments -/

namespace Segment

@[simp]
theorem isVertical_moved (s : Segment ℚ) : (s.moved dx dy).isVertical = s.isVertical :=
  close_add_right s.x₁ s.x₂ dx

/-- The line through a moved segment is the moved line. -/
theorem support_moved (s : Segment ℚ) : (s.moved dx dy).support = s.support.moved dx dy := by
  unfold support
  rw [isVertical_moved]
  split
  · rfl
  · have hslope : (s.y₂ + dy - (s.y₁ + dy)) / (s.x₂ + dx - (s.x₁ + dx)) =
        (s.y₂ - s.y₁) / (s.x₂ - s.x₁) := by
      rw [add_sub_add_right_eq_sub, add_sub_add_right_eq_sub]
    have hintercept (m : ℚ) : s.y₁ + dy - m * (s.x₁ + dx) = s.y₁ - m * s.x₁ + dy - m * dx := by
      ring
    simp only [moved, Straight.moved, Line.moved, hslope, hintercept]

theorem start_moved (upright : Bool) (s : Segment ℚ) :
    (s.moved dx dy).start upright = s.start upright + if upright then dy else dx := by
  cases upright <;> rfl

theorem stop_moved (upright : Bool) (s : Segment ℚ) :
    (s.moved dx dy).stop upright = s.stop upright + if upright then dy else dx := by
  cases upright <;> rfl

theorem overlap_moved (upright : Bool) (s t : Segment ℚ) :
    overlap upright (s.moved dx dy) (t.moved dx dy) = (overlap upright s t).moved dx dy := by
  simp only [overlap, start_moved, stop_moved, close_add_right, lt_add_right, Value.moved_ite]
  rfl

theorem common_moved (s t : Segment ℚ) :
    (s.moved dx dy).common (t.moved dx dy) = (s.common t).moved dx dy := by
  simp only [common, isVertical_moved, start_moved, lt_add_right, overlap_moved, Value.moved_ite]

theorem amended?_moved (s : Segment ℚ) :
    (s.moved dx dy).amended? = s.amended?.map (Value.moved dx dy) := by
  simp only [amended?, moved, pointClose_add_right, close_add_right, lt_add_right]
  cases pointClose s.x₁ s.y₁ s.x₂ s.y₂ with
  | true => rfl
  | false =>
    cases close s.x₁ s.x₂ with
    | true => cases lt s.y₁ s.y₂ <;> rfl
    | false => cases lt s.x₂ s.x₁ <;> rfl

end Segment

/-! ## All kinds -/

namespace Value

/-- The canonical form of a moved value is the moved canonical form. -/
theorem amended_moved (v : Value ℚ) :
    (v.moved dx dy).amended?.getD (v.moved dx dy) = (v.amended?.getD v).moved dx dy := by
  cases v with
  | segment s =>
    show (s.moved dx dy).amended?.getD (segment (s.moved dx dy)) =
      (s.amended?.getD (segment s)).moved dx dy
    rw [Segment.amended?_moved]
    cases s.amended? <;> rfl
  | _ => rfl

theorem result_clip_moved (v : Value ℚ) (s : Segment ℚ) :
    ((v.moved dx dy).clip (s.moved dx dy)).result = (v.clip s).result.map (Value.moved dx dy) := by
  cases v with
  | point p => exact congrArg Except.ok (p.within_moved s)
  | segment t => exact congrArg Except.ok (t.common_moved s)
  | _ => rfl

/-- Whether moving two values moves their intersection. -/
def MovesWith (dx dy : ℚ) (a b : Value ℚ) : Prop :=
  ((a.moved dx dy).intersect (b.moved dx dy)).result =
    (a.intersect b).result.map (Value.moved dx dy)

/-- Of two sets of different kinds it does not matter which comes first. -/
theorem MovesWith.symm {a b : Value ℚ} (ha : a.IsConcrete) (hb : b.IsConcrete)
    (hkind : a.kind ≠ b.kind) (h : a.MovesWith dx dy b) : b.MovesWith dx dy a := by
  have hmoved : (a.moved dx dy).kind ≠ (b.moved dx dy).kind := by simpa using hkind
  unfold MovesWith at h ⊢
  rw [← result_intersect_comm ha.moved hb.moved hmoved, ← result_intersect_comm ha hb hkind, h]

end Value

theorem Segment.result_meetBy_moved (s : Segment ℚ) (v w : Value ℚ)
    {meet meet' : Straight ℚ → Traced ℚ (Value ℚ)}
    (h : (meet' (s.support.moved dx dy)).result =
      (meet s.support).result.map (Value.moved dx dy)) :
    ((s.moved dx dy).meetBy w meet').result =
      (s.meetBy v meet).result.map (Value.moved dx dy) := by
  rw [result_meetBy, result_meetBy, support_moved, h]
  cases (meet s.support).result with
  | error fault => rfl
  | ok r => exact r.result_clip_moved s

theorem Point.movesWith (p : Point ℚ) {b : Value ℚ} (hb : b.IsConcrete) :
    (Value.point p).MovesWith dx dy b := by
  cases b with
  | placeholder => exact absurd rfl hb
  | empty => rfl
  | point q => exact congrArg Except.ok (q.atPoint_moved p)
  | line l => exact p.result_intersectStraight_moved (.line l)
  | vertical v => exact p.result_intersectStraight_moved (.vertical v)
  | segment s =>
    exact s.result_meetBy_moved (.point p) (.point (p.moved dx dy))
      (p.result_intersectStraight_moved s.support)

theorem Straight.movesWith {l k : Straight ℚ} (h : ¬l.NearlyParallel k) :
    l.toValue.MovesWith dx dy k.toValue := by
  have hmeet (l k : Straight ℚ) : (l.toValue.intersect k.toValue).result = .ok (k.meet l) := by
    cases l <;> cases k <;> rfl
  have htoValue (l : Straight ℚ) : l.toValue.moved dx dy = (l.moved dx dy).toValue := by
    cases l <;> rfl
  have h' : ¬k.NearlyParallel l := fun hparallel => h hparallel.symm
  rw [Value.MovesWith, htoValue, htoValue, hmeet, hmeet, meet_moved h']
  rfl

namespace Segment

theorem movesWith_straight {s : Segment ℚ} {l : Straight ℚ} (h : ¬s.support.NearlyParallel l) :
    (Value.segment s).MovesWith dx dy l.toValue := by
  have hintersect (s : Segment ℚ) (l : Straight ℚ) :
      ((Value.segment s).intersect l.toValue).result = ((s.support.meet l).clip s).result := by
    rw [← result_intersectStraight]
    cases l <;> rfl
  have htoValue : l.toValue.moved dx dy = (l.moved dx dy).toValue := by
    cases l <;> rfl
  rw [Value.MovesWith, htoValue, hintersect, ← Value.result_clip_moved, ← Straight.meet_moved h,
    ← support_moved]
  exact hintersect (s.moved dx dy) (l.moved dx dy)

/-- Two segments are clipped one after the other to where their lines meet. -/
theorem movesWith_segment {s t : Segment ℚ} (h : ¬s.support.NearlyParallel t.support) :
    (Value.segment s).MovesWith dx dy (.segment t) := by
  have h' : ¬t.support.NearlyParallel s.support := fun hparallel => h hparallel.symm
  show ((Value.segment (s.moved dx dy)).intersect (.segment (t.moved dx dy))).result = _
  rw [result_intersect, result_intersect, support_moved, support_moved, Straight.meet_moved h',
    Value.result_clip_moved]
  cases ((t.support.meet s.support).clip t).result with
  | error fault => rfl
  | ok r => exact r.result_clip_moved s

end Segment

namespace Value

/-- Moved sets have the moved intersection unless they are nearly parallel. -/
theorem result_intersect_moved {a b : Value ℚ} (ha : a.IsConcrete) (hb : b.IsConcrete)
    (h : ¬a.NearlyParallel b) : a.MovesWith dx dy b := by
  cases a with
  | placeholder => exact absurd rfl ha
  | empty => cases b <;> rfl
  | point p => exact p.movesWith hb
  | line l =>
    cases b with
    | placeholder => exact absurd rfl hb
    | empty => rfl
    | point p => exact (p.movesWith ha).symm hb ha (by simp [kind])
    | line k =>
      refine Straight.movesWith (l := .line l) (k := .line k) fun hparallel => h ?_
      exact ⟨_, rfl, _, rfl, hparallel⟩
    | vertical v => exact Straight.movesWith (l := .line l) (k := .vertical v) id
    | segment s =>
      refine (Segment.movesWith_straight (l := .line l) fun hparallel => h ?_).symm hb ha
        (by simp [kind])
      exact ⟨_, rfl, _, rfl, hparallel.symm⟩
  | vertical v =>
    cases b with
    | placeholder => exact absurd rfl hb
    | empty => rfl
    | point p => exact (p.movesWith ha).symm hb ha (by simp [kind])
    | line l => exact Straight.movesWith (l := .vertical v) (k := .line l) id
    | vertical w => exact Straight.movesWith (l := .vertical v) (k := .vertical w) id
    | segment s =>
      refine (Segment.movesWith_straight (l := .vertical v) fun hparallel => h ?_).symm hb ha
        (by simp [kind])
      exact ⟨_, rfl, _, rfl, hparallel.symm⟩
  | segment s =>
    cases b with
    | placeholder => exact absurd rfl hb
    | empty => rfl
    | point p => exact (p.movesWith ha).symm hb ha (by simp [kind])
    | line l =>
      exact Segment.movesWith_straight (l := .line l) fun hparallel =>
        h ⟨_, rfl, _, rfl, hparallel⟩
    | vertical v =>
      exact Segment.movesWith_straight (l := .vertical v) fun hparallel =>
        h ⟨_, rfl, _, rfl, hparallel⟩
    | segment t =>
      exact Segment.movesWith_segment fun hparallel => h ⟨_, rfl, _, rfl, hparallel⟩

theorem yields_shift {v : Value ℚ} (h : v.IsConcrete) (dx dy : ℚ) :
    (v.shift dx dy).Yields (v.moved dx dy) := by
  apply ((Discipline.steady ℚ).run_shift h.obeys dx dy).steady.yields
  rw [shift, Traced.result_call, shifted?_eq_moved h]
  rfl

theorem yields_intersect {a b v : Value ℚ} (ha : a.IsConcrete) (hb : b.IsConcrete)
    (h : (a.intersect b).result = .ok v) : (a.intersect b).Yields v :=
  ((Discipline.steady ℚ).run_intersect ha.obeys hb.obeys).steady.yields h

end Value

/-- Moving by nothing changes nothing, moving twice is moving by the sum, moving commutes with
putting a value in canonical form, and it commutes with intersecting two values unless the lines
through them have close but different slopes. -/
theorem shift_equivariant (v a b : Value ℚ) (hv : v.IsConcrete) (ha : a.IsConcrete)
    (hb : b.IsConcrete) (dx dy dx' dy' : ℚ) :
    (v.shift 0 0).Yields v ∧
      (∃ w, (v.shift dx dy >>= fun u => u.shift dx' dy').Yields w ∧
        (v.shift (dx + dx') (dy + dy')).Yields w) ∧
      (∃ w, (v.shift dx dy >>= fun u => u.canonical).Yields w ∧
        (v.canonical >>= fun u => u.shift dx dy).Yields w) ∧
      (¬a.NearlyParallel b →
        ∃ w, (do (← a.shift dx dy).intersect (← b.shift dx dy)).Yields w ∧
          (a.intersect b >>= fun u => u.shift dx dy).Yields w) := by
  refine ⟨?_, ?_, ?_, ?_⟩
  · simpa using Value.yields_shift hv 0 0
  · refine ⟨_, (Value.yields_shift hv dx dy).bind (Value.yields_shift hv.moved dx' dy'), ?_⟩
    rw [Value.moved_moved]
    exact Value.yields_shift hv _ _
  · refine ⟨_, (Value.yields_shift hv dx dy).bind (Value.yields_canonical hv.moved), ?_⟩
    rw [Value.amended_moved]
    exact (Value.yields_canonical hv).bind (Value.yields_shift (Value.isConcrete_amended hv) dx dy)
  · intro h
    obtain ⟨r, hresult, hr⟩ := Value.exists_intersect ha hb
    have hmoved : ((a.moved dx dy).intersect (b.moved dx dy)).result = .ok (r.moved dx dy) := by
      rw [Value.result_intersect_moved ha hb h, hresult]
      rfl
    refine ⟨r.moved dx dy, ?_, ?_⟩
    · exact (Value.yields_shift ha dx dy).bind ((Value.yields_shift hb dx dy).bind
        (Value.yields_intersect ha.moved hb.moved hmoved))
    · exact (Value.yields_intersect ha hb hresult).bind (Value.yields_shift hr dx dy)

/-- A segment whose ends are out of order. -/
def Segment.backward : Segment ℚ := ⟨8, 3, 2, -3⟩

theorem shift_equivariant_backward :
    (Value.segment .backward).IsConcrete ∧ (Value.segment .level).IsConcrete ∧
      ¬(Value.segment .level).NearlyParallel (.segment .backward) ∧
      ((Value.segment .backward).shift 0 0).Yields (.segment .backward) ∧
      (∃ w, ((Value.segment .backward).shift (1 / 3) (-7) >>= fun u => u.shift 4 7).Yields w ∧
        ((Value.segment .backward).shift (1 / 3 + 4) (-7 + 7)).Yields w) ∧
      (∃ w, ((Value.segment .backward).shift (1 / 3) (-7) >>= fun u => u.canonical).Yields w ∧
        ((Value.segment .backward).canonical >>= fun u => u.shift (1 / 3) (-7)).Yields w) ∧
      ∃ w, (do
          (← (Value.segment .level).shift (1 / 3) (-7)).intersect
            (← (Value.segment .backward).shift (1 / 3) (-7))).Yields w ∧
        ((Value.segment .level).intersect (.segment .backward) >>= fun u =>
          u.shift (1 / 3) (-7)).Yields w := by
  have hbackward : (Value.segment Segment.backward).IsConcrete := nofun
  have hlevel : (Value.segment Segment.level).IsConcrete := nofun
  have hslopes : ¬(Value.segment .level).NearlyParallel (.segment .backward) := by decide +kernel
  obtain ⟨hzero, htwice, hcanonical, hintersect⟩ :=
    shift_equivariant _ _ _ hbackward hlevel hbackward (1 / 3) (-7) 4 7
  exact ⟨hbackward, hlevel, hslopes, hzero, htwice, hcanonical, hintersect hslopes⟩

/-- Any two lines of close but different slopes are taken for one or told apart depending on where
the plane is moved. -/
theorem Line.exists_moved_ne {l k : Line ℚ} (h : (Value.line l).NearlyParallel (.line k)) :
    ∃ dx, ¬(Value.line l).MovesWith dx 0 (.line k) := by
  obtain ⟨_, ⟨⟩, _, ⟨⟩, hclose, hne⟩ := h
  have hslopes : close k.slope l.slope = true := (close_comm _ _).trans hclose
  have hatLine (l k : Line ℚ) (h : close k.slope l.slope = true) :
      ((Value.line l).intersect (.line k)).result =
        .ok (if close k.intercept l.intercept = true then .line k else .empty) :=
    congrArg Except.ok (if_pos h)
  -- moving sideways gives the intercepts any distance
  have hdistance (d : ℚ) : ∃ dx, (k.moved dx 0).intercept - (l.moved dx 0).intercept = d := by
    have hsub : k.slope - l.slope ≠ 0 := sub_ne_zero.2 hne.symm
    refine ⟨(k.intercept - l.intercept - d) / (k.slope - l.slope), ?_⟩
    simp only [moved]
    field_simp
    ring
  by_cases hintercept : close k.intercept l.intercept = true
  · obtain ⟨dx, hdx⟩ := hdistance tolerance
    refine ⟨dx, ?_⟩
    have happart : ¬close (k.moved dx 0).intercept (l.moved dx 0).intercept = true := by
      rw [close_iff, hdx, abs_of_pos tolerance_pos]
      exact lt_irrefl _
    intro hmoves
    have hresult := (hatLine (l.moved dx 0) (k.moved dx 0) hslopes).symm.trans hmoves
    rw [hatLine l k hslopes, if_neg happart, if_pos hintercept] at hresult
    cases hresult
  · obtain ⟨dx, hdx⟩ := hdistance 0
    refine ⟨dx, ?_⟩
    have htogether : close (k.moved dx 0).intercept (l.moved dx 0).intercept = true := by
      rw [close_iff, hdx, abs_zero]
      exact tolerance_pos
    intro hmoves
    have hresult := (hatLine (l.moved dx 0) (k.moved dx 0) hslopes).symm.trans hmoves
    rw [hatLine l k hslopes, if_pos htogether, if_neg hintercept] at hresult
    cases hresult

end Planar
