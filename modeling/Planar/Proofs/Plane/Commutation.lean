import Planar.Proofs.Plane.Decisions
import Planar.Proofs.Plane.Tolerance

/-!
# The order of two values in an intersection

Exchanging the two values of an intersection changes the result by less than the tolerance, except
where two segments are taken for parts of one line and start at the same coordinate of it. Then it
depends on the order which of the two gives an end of the result, and lines of close slopes and
intercepts may be far apart at the ends of long segments.

* `Value.IsCanonical` — the form in which values are intersected;
* `Segment.Contested` — two segments for which the order matters;
* `close_intersect_iff` — the two orders give close results except for contested segments;
* `intersect_not_close` — such segments exist.
-/

namespace Planar

open Scalar

/-! ## Canonical values -/

/-- Whether the ends of a segment are not close to each other and in order: by height if they are
close in the horizontal direction, and from left to right otherwise. -/
structure Segment.IsCanonical (s : Segment ℚ) : Prop where
  apart : pointClose s.x₁ s.y₁ s.x₂ s.y₂ = false
  rising : s.isVertical = true → s.y₁ < s.y₂
  forward : s.isVertical = false → s.x₁ < s.x₂

/-- Whether a value is a set whose segment, if it is one, is canonical. -/
def Value.IsCanonical : Value ℚ → Prop
  | segment s => s.IsCanonical
  | placeholder => False
  | _ => True

namespace Segment

variable {s t : Segment ℚ}

/-- A canonical segment runs forward along its axis. -/
theorem IsCanonical.start_lt_stop (h : s.IsCanonical) :
    s.start s.isVertical < s.stop s.isVertical := by
  cases hv : s.isVertical with
  | true => exact h.rising hv
  | false => exact h.forward hv

/-- The ends of a canonical segment are not close along its axis. -/
theorem IsCanonical.not_close (h : s.IsCanonical) :
    close (s.stop s.isVertical) (s.start s.isVertical) = false := by
  cases hv : s.isVertical with
  | true =>
    have hapart := h.apart
    rw [pointClose, show close s.x₁ s.x₂ = true from hv, Bool.true_and] at hapart
    rw [close_comm]
    exact hapart
  | false =>
    rw [close_comm]
    exact hv

end Segment

/-! ## Close values -/

theorem Value.close_self {v : Value ℚ} (h : v.IsConcrete) : v.close v = true := by
  cases v with
  | placeholder => exact absurd rfl h
  | _ => simp [Value.close, Value.agree, Value.coordinates?]

namespace Segment

/-- Segments are close if their ends are, axis by axis. -/
theorem close_iff (upright : Bool) {s t : Segment ℚ} :
    (Value.segment s).close (.segment t) = true ↔
      (Scalar.close (s.start upright) (t.start upright) = true ∧
        Scalar.close (s.start !upright) (t.start !upright) = true) ∧
      Scalar.close (s.stop upright) (t.stop upright) = true ∧
        Scalar.close (s.stop !upright) (t.stop !upright) = true := by
  have hfields : (Value.segment s).close (.segment t) =
      (Scalar.close s.x₁ t.x₁ && (Scalar.close s.y₁ t.y₁ &&
        (Scalar.close s.x₂ t.x₂ && (Scalar.close s.y₂ t.y₂ && true)))) := by
    simp [Value.close, Value.agree, Value.coordinates?, Value.kind]
  rw [hfields]
  simp only [Bool.and_eq_true, and_true]
  cases upright with
  | true =>
    show _ ↔ (Scalar.close s.y₁ t.y₁ = true ∧ Scalar.close s.x₁ t.x₁ = true) ∧
      Scalar.close s.y₂ t.y₂ = true ∧ Scalar.close s.x₂ t.x₂ = true
    tauto
  | false =>
    show _ ↔ (Scalar.close s.x₁ t.x₁ = true ∧ Scalar.close s.y₁ t.y₁ = true) ∧
      Scalar.close s.x₂ t.x₂ = true ∧ Scalar.close s.y₂ t.y₂ = true
    tauto

end Segment

/-! ## Lines -/

/-- Whether a value is nothing or a point. -/
def Value.IsSmall : Value ℚ → Prop
  | empty => True
  | point _ => True
  | _ => False

namespace Straight

/-- Where a line meets a line. -/
def meet : Straight ℚ → Straight ℚ → Value ℚ
  | line l, line k => l.atLine k
  | line l, vertical v | vertical v, line l => l.atVertical v
  | vertical v, vertical w => v.atVertical w

theorem result_meetLine (l : Straight ℚ) (k : Line ℚ) :
    (l.meetLine k).result = .ok (l.meet (.line k)) := by
  cases l <;> rfl

theorem result_meetVertical (l : Straight ℚ) (v : Vertical ℚ) :
    (l.meetVertical v).result = .ok (l.meet (.vertical v)) := by
  cases l <;> rfl

/-- Whether two lines are taken for one. -/
def Same : Straight ℚ → Straight ℚ → Prop
  | line l, line k => close l.slope k.slope = true ∧ close l.intercept k.intercept = true
  | vertical v, vertical w => close v.x w.x = true
  | _, _ => False

theorem meet_of_same {l k : Straight ℚ} (h : l.Same k) : l.meet k = l.toValue := by
  cases l with
  | line l =>
    cases k with
    | line k =>
      show l.atLine k = .line l
      rw [Line.atLine, if_pos h.1, if_pos h.2]
    | vertical v => cases h
  | vertical v =>
    cases k with
    | line l => cases h
    | vertical w => exact if_pos h

theorem Same.symm {l k : Straight ℚ} (h : l.Same k) : k.Same l := by
  cases l with
  | line l =>
    cases k with
    | line k =>
      obtain ⟨hslope, hintercept⟩ := h
      rw [close_comm] at hslope hintercept
      exact ⟨hslope, hintercept⟩
    | vertical v => cases h
  | vertical v =>
    cases k with
    | line l => cases h
    | vertical w => exact (close_comm w.x v.x).trans h

/-- Lines that are not taken for one meet in the same place in either order. -/
theorem meet_of_not_same {l k : Straight ℚ} (h : ¬l.Same k) :
    k.meet l = l.meet k ∧ (l.meet k).IsSmall := by
  cases l with
  | line l =>
    cases k with
    | line k =>
      show k.atLine l = l.atLine k ∧ (l.atLine k).IsSmall
      rw [Line.atLine, Line.atLine, close_comm k.slope, close_comm k.intercept]
      by_cases hslope : close l.slope k.slope = true
      · have hintercept : ¬close l.intercept k.intercept = true := fun h' => h ⟨hslope, h'⟩
        rw [if_pos hslope, if_neg hintercept, if_pos hslope, if_neg hintercept]
        exact ⟨rfl, trivial⟩
      · rw [if_neg hslope, if_neg hslope]
        refine ⟨?_, trivial⟩
        have hne : l.slope - k.slope ≠ 0 := by
          intro hzero
          rw [sub_eq_zero.1 hzero, close_self] at hslope
          exact hslope rfl
        have hx : (l.intercept - k.intercept) / (k.slope - l.slope) =
            (k.intercept - l.intercept) / (l.slope - k.slope) := by
          rw [← neg_sub k.intercept, ← neg_sub l.slope, neg_div_neg_eq]
        have hy : k.slope * ((k.intercept - l.intercept) / (l.slope - k.slope)) + k.intercept =
            l.slope * ((k.intercept - l.intercept) / (l.slope - k.slope)) + l.intercept := by
          field_simp
          ring
        dsimp only
        rw [hx, hy]
    | vertical v => exact ⟨rfl, trivial⟩
  | vertical v =>
    cases k with
    | line l => exact ⟨rfl, trivial⟩
    | vertical w =>
      have hne : ¬close v.x w.x = true := h
      show w.atVertical v = v.atVertical w ∧ (v.atVertical w).IsSmall
      rw [Vertical.atVertical, Vertical.atVertical, close_comm w.x, if_neg hne, if_neg hne]
      exact ⟨rfl, trivial⟩

end Straight

/-! ## Segments -/

namespace Segment

variable {s t : Segment ℚ}

theorem result_intersectStraight (t : Segment ℚ) (l : Straight ℚ) :
    (t.intersectStraight l).result = ((t.support.meet l).clip t).result := by
  rw [intersectStraight, Traced.result_call]
  cases l with
  | line l =>
    rw [Straight.meetSegment, Line.meetSegment, result_meetBy, Line.intersectStraight,
      Traced.result_call, Straight.result_meetLine]
    rfl
  | vertical v =>
    rw [Straight.meetSegment, Vertical.meetSegment, result_meetBy, Vertical.intersectStraight,
      Traced.result_call, Straight.result_meetVertical]
    rfl

theorem result_intersect (s t : Segment ℚ) :
    ((Value.segment s).intersect (.segment t)).result =
      ((t.support.meet s.support).clip t).result >>= fun v => (v.clip s).result := by
  have hmeet : ((Value.segment s).intersect (.segment t)).result = (t.meetSegment s).result := rfl
  rw [hmeet, meetSegment, result_meetBy, result_intersectStraight]

/-- Two segments of one line meet in what they have in common. -/
theorem result_intersect_of_same (h : s.support.Same t.support) :
    ((Value.segment s).intersect (.segment t)).result = .ok (t.common s) := by
  rw [result_intersect, Straight.meet_of_same h.symm]
  cases t.support <;> rfl

/-- Whether both coordinates of a point are within those of a segment. -/
def covers (s : Segment ℚ) (p : Point ℚ) : Bool :=
  between p.x s.x₁ s.x₂ && between p.y s.y₁ s.y₂

theorem result_clip_within (s t : Segment ℚ) (p : Point ℚ) :
    ((p.within t).clip s).result = .ok (if t.covers p && s.covers p then .point p else .empty) := by
  have hwithin : ∀ u : Segment ℚ, p.within u = if u.covers p then .point p else .empty :=
    fun _ => rfl
  rw [hwithin]
  cases t.covers p with
  | false => rfl
  | true => exact congrArg Except.ok (hwithin s)

/-- Two segments of different lines meet in the same point or in none, in either order. -/
theorem exists_result_of_not_same (h : ¬s.support.Same t.support) :
    ∃ v : Value ℚ, v.IsConcrete ∧ ((Value.segment s).intersect (.segment t)).result = .ok v ∧
      ((Value.segment t).intersect (.segment s)).result = .ok v := by
  obtain ⟨hcomm, hsmall⟩ := Straight.meet_of_not_same h
  rw [result_intersect, result_intersect, hcomm]
  cases hv : s.support.meet t.support with
  | empty => exact ⟨.empty, nofun, rfl, rfl⟩
  | point p =>
    refine ⟨if t.covers p && s.covers p then .point p else .empty, ?_, ?_, ?_⟩
    · split <;> exact nofun
    · exact result_clip_within s t p
    · rw [Bool.and_comm]
      exact result_clip_within t s p
  | _ =>
    rw [hv] at hsmall
    cases hsmall

/-- Whether two segments that are taken for parts of one line start at the same coordinate of it
although they start or, if they also stop at the same coordinate, stop at points that are not
close. -/
def Contested (s t : Segment ℚ) : Prop :=
  s.support.Same t.support ∧ s.start s.isVertical = t.start s.isVertical ∧
    (close (s.start !s.isVertical) (t.start !s.isVertical) = false ∨
      s.stop s.isVertical = t.stop s.isVertical ∧
        close (s.stop !s.isVertical) (t.stop !s.isVertical) = false)

theorem isVertical_eq_of_same (h : s.support.Same t.support) : s.isVertical = t.isVertical := by
  unfold support at h
  cases hs : s.isVertical with
  | true =>
    cases ht : t.isVertical with
    | true => rfl
    | false =>
      rw [hs, ht] at h
      cases h
  | false =>
    cases ht : t.isVertical with
    | true =>
      rw [hs, ht] at h
      cases h
    | false => rfl

theorem isConcrete_overlap (upright : Bool) (s t : Segment ℚ) :
    (overlap upright s t).IsConcrete := by
  unfold overlap
  split
  · nofun
  · split
    · nofun
    · split <;> nofun

/-- The segment from the start of one segment to the end of another. -/
def join (s t : Segment ℚ) : Segment ℚ := ⟨s.x₁, s.y₁, t.x₂, t.y₂⟩

theorem start_join (upright : Bool) (s t : Segment ℚ) :
    (join s t).start upright = s.start upright := by
  cases upright <;> rfl

theorem stop_join (upright : Bool) (s t : Segment ℚ) :
    (join s t).stop upright = t.stop upright := by
  cases upright <;> rfl

/-- The overlap of two segments that start at the same coordinate. -/
theorem overlap_of_tie {upright : Bool} (hs : s.IsCanonical) (hupright : s.isVertical = upright)
    (htie : s.start upright = t.start upright) :
    overlap upright s t =
      if lt (t.stop upright) (s.stop upright) then .segment t else .segment (join t s) := by
  subst hupright
  have hclose : ¬close (s.stop s.isVertical) (t.start s.isVertical) = true := by
    rw [← htie, hs.not_close]
    exact Bool.false_ne_true
  have hlt : ¬lt (s.stop s.isVertical) (t.start s.isVertical) = true := by
    rw [lt_iff, ← htie, not_lt]
    exact hs.start_lt_stop.le
  rw [overlap, if_neg hclose, if_neg hlt]
  rfl

/-- The overlaps of two segments that start at the same coordinate, in both orders. -/
theorem close_overlap_iff {upright : Bool} (hs : s.IsCanonical) (ht : t.IsCanonical)
    (hsu : s.isVertical = upright) (htu : t.isVertical = upright)
    (htie : s.start upright = t.start upright) :
    (overlap upright s t).close (overlap upright t s) = true ↔
      close (s.start !upright) (t.start !upright) = true ∧
        (s.stop upright = t.stop upright → close (s.stop !upright) (t.stop !upright) = true) := by
  rw [overlap_of_tie hs hsu htie, overlap_of_tie ht htu htie.symm]
  rcases lt_trichotomy (s.stop upright) (t.stop upright) with hlt | heq | hlt
  · rw [if_neg (mt lt_iff.1 hlt.not_gt), if_pos (lt_iff.2 hlt), close_iff upright]
    simp [start_join, stop_join, htie, close_comm (t.start !upright), hlt.ne]
  · rw [if_neg (mt lt_iff.1 heq.not_gt), if_neg (mt lt_iff.1 heq.symm.not_gt), close_iff upright]
    simp [start_join, stop_join, htie, close_comm (t.start !upright), heq]
  · rw [if_pos (lt_iff.2 hlt), if_neg (mt lt_iff.1 hlt.not_gt), close_iff upright]
    simp [start_join, stop_join, htie, close_comm (t.start !upright), hlt.ne']

/-- Two segments of one line have close parts in common in both orders unless they are contested. -/
theorem close_common_iff (hs : s.IsCanonical) (ht : t.IsCanonical)
    (h : s.support.Same t.support) :
    (t.common s).close (s.common t) = true ↔ ¬s.Contested t := by
  have hupright := isVertical_eq_of_same h
  unfold common Contested
  rw [← hupright]
  dsimp only
  rcases lt_trichotomy (s.start s.isVertical) (t.start s.isVertical) with hlt | heq | hlt
  · -- both orders start with `s`
    rw [if_neg (mt lt_iff.1 hlt.not_gt), if_pos (lt_iff.2 hlt)]
    refine iff_of_true (Value.close_self (isConcrete_overlap _ s t)) ?_
    rintro ⟨_, htie, _⟩
    exact hlt.ne htie
  · rw [if_neg (mt lt_iff.1 heq.symm.not_lt), if_neg (mt lt_iff.1 heq.not_lt),
      close_overlap_iff hs ht rfl hupright.symm heq]
    simp only [h, heq, true_and, not_or, not_and, Bool.not_eq_false]
  · -- both orders start with `t`
    rw [if_pos (lt_iff.2 hlt), if_neg (mt lt_iff.1 hlt.not_gt)]
    refine iff_of_true (Value.close_self (isConcrete_overlap _ t s)) ?_
    rintro ⟨_, htie, _⟩
    exact hlt.ne' htie

end Segment

/-! ## All kinds -/

namespace Value

/-- Whether two values are contested segments. -/
def Contested : Value ℚ → Value ℚ → Prop
  | segment s, segment t => s.Contested t
  | _, _ => False

/-- Whether two values have intersections in both orders, and close ones. -/
def Commute (a b : Value ℚ) : Prop :=
  ∃ v w, (a.intersect b).result = .ok v ∧ (b.intersect a).result = .ok w ∧ v.close w = true

theorem commute_of_eq {a b : Value ℚ} {run : Traced ℚ (Value ℚ)}
    (h : ∃ v : Value ℚ, v.IsConcrete ∧ run.result = .ok v)
    (hab : (a.intersect b).result = run.result) (hba : (b.intersect a).result = run.result) :
    a.Commute b := by
  obtain ⟨v, hv, hresult⟩ := h
  exact ⟨v, v, hab.trans hresult, hba.trans hresult, close_self hv⟩

theorem isConcrete_ite {c : Prop} [Decidable c] {v w : Value ℚ} (hv : v.IsConcrete)
    (hw : w.IsConcrete) : (if c then v else w).IsConcrete := by
  split
  · exact hv
  · exact hw

theorem exists_clip {v : Value ℚ} (hv : v.IsConcrete) (s : Segment ℚ) :
    ∃ w : Value ℚ, w.IsConcrete ∧ (v.clip s).result = .ok w := by
  cases v with
  | empty => exact ⟨.empty, nofun, rfl⟩
  | point p => exact ⟨p.within s, isConcrete_ite nofun nofun, rfl⟩
  | line l => exact ⟨.segment s, nofun, rfl⟩
  | vertical w => exact ⟨.segment s, nofun, rfl⟩
  | segment t =>
    refine ⟨t.common s, ?_, rfl⟩
    exact isConcrete_ite (Segment.isConcrete_overlap _ t s) (Segment.isConcrete_overlap _ s t)
  | placeholder => exact absurd rfl hv

theorem exists_meetBy {s : Segment ℚ} (v : Value ℚ) {intersect : Straight ℚ → Traced ℚ (Value ℚ)}
    (h : ∃ w : Value ℚ, w.IsConcrete ∧ (intersect s.support).result = .ok w) :
    ∃ w : Value ℚ, w.IsConcrete ∧ (s.meetBy v intersect).result = .ok w := by
  obtain ⟨w, hw, hresult⟩ := h
  rw [Segment.result_meetBy, hresult]
  exact exists_clip hw s

theorem isConcrete_meet (l k : Straight ℚ) : (l.meet k).IsConcrete := by
  cases l with
  | line l =>
    cases k with
    | line k => exact isConcrete_ite (isConcrete_ite nofun nofun) nofun
    | vertical v => nofun
  | vertical v =>
    cases k with
    | line l => nofun
    | vertical w => exact isConcrete_ite nofun nofun

/-- Two lines meet in close places in either order. -/
theorem close_meet (l k : Straight ℚ) : (l.meet k).close (k.meet l) = true := by
  by_cases h : l.Same k
  · rw [Straight.meet_of_same h, Straight.meet_of_same h.symm]
    cases l with
    | line l =>
      cases k with
      | line k =>
        obtain ⟨hslope, hintercept⟩ := h
        simp [Straight.toValue, close, agree, coordinates?, kind, hslope, hintercept]
      | vertical v => cases h
    | vertical v =>
      cases k with
      | line l => cases h
      | vertical w =>
        have hx : Scalar.close v.x w.x = true := h
        simp [Straight.toValue, close, agree, coordinates?, kind, hx]
  · rw [(Straight.meet_of_not_same h).1]
    exact close_self (isConcrete_meet l k)

/-- A segment and a line have the same intersection in both orders. -/
theorem exists_meetSegment (s : Segment ℚ) (l : Straight ℚ) :
    ∃ w : Value ℚ, w.IsConcrete ∧ (l.meetSegment s).result = .ok w := by
  cases l with
  | line l =>
    refine exists_meetBy (line l) ⟨_, isConcrete_meet s.support (.line l), ?_⟩
    rw [Line.intersectStraight, Traced.result_call, Straight.result_meetLine]
  | vertical v =>
    refine exists_meetBy (vertical v) ⟨_, isConcrete_meet s.support (.vertical v), ?_⟩
    rw [Vertical.intersectStraight, Traced.result_call, Straight.result_meetVertical]

theorem exists_intersectStraight (p : Point ℚ) (l : Straight ℚ) :
    ∃ w : Value ℚ, w.IsConcrete ∧ (p.intersectStraight l).result = .ok w := by
  cases l with
  | line l => exact ⟨p.atLine l, isConcrete_ite nofun nofun, rfl⟩
  | vertical v => exact ⟨p.atVertical v, isConcrete_ite nofun nofun, rfl⟩

theorem commute_points (p q : Point ℚ) : (point p).Commute (point q) := by
  refine ⟨q.atPoint p, p.atPoint q, rfl, rfl, ?_⟩
  have hcomm : pointClose p.x p.y q.x q.y = pointClose q.x q.y p.x p.y := by
    rw [pointClose, pointClose, close_comm p.x, close_comm p.y]
  rw [Point.atPoint, Point.atPoint, hcomm]
  cases h : pointClose q.x q.y p.x p.y with
  | false => rfl
  | true =>
    rw [pointClose, Bool.and_eq_true] at h
    simp [close, agree, coordinates?, kind, h]

/-- Values other than two segments commute. -/
theorem commute_of_not_segments {a b : Value ℚ} (ha : a.IsConcrete) (hb : b.IsConcrete)
    (h : ¬∃ s t, a = segment s ∧ b = segment t) : a.Commute b := by
  cases a with
  | placeholder => exact absurd rfl ha
  | empty =>
    cases b with
    | placeholder => exact absurd rfl hb
    | _ => exact ⟨.empty, .empty, rfl, rfl, rfl⟩
  | point p =>
    cases b with
    | placeholder => exact absurd rfl hb
    | empty => exact ⟨.empty, .empty, rfl, rfl, rfl⟩
    | point q => exact commute_points p q
    | line l => exact commute_of_eq (exists_intersectStraight p (.line l)) rfl rfl
    | vertical v => exact commute_of_eq (exists_intersectStraight p (.vertical v)) rfl rfl
    | segment s =>
      have hresult := exists_meetBy (point p) (exists_intersectStraight p s.support)
      exact commute_of_eq hresult rfl rfl
  | line l =>
    cases b with
    | placeholder => exact absurd rfl hb
    | empty => exact ⟨.empty, .empty, rfl, rfl, rfl⟩
    | point p => exact commute_of_eq (exists_intersectStraight p (.line l)) rfl rfl
    | line k => exact ⟨_, _, rfl, rfl, close_meet (.line k) (.line l)⟩
    | vertical v => exact ⟨_, _, rfl, rfl, close_meet (.line l) (.vertical v)⟩
    | segment s => exact commute_of_eq (exists_meetSegment s (.line l)) rfl rfl
  | vertical v =>
    cases b with
    | placeholder => exact absurd rfl hb
    | empty => exact ⟨.empty, .empty, rfl, rfl, rfl⟩
    | point p => exact commute_of_eq (exists_intersectStraight p (.vertical v)) rfl rfl
    | line l => exact ⟨_, _, rfl, rfl, close_meet (.line l) (.vertical v)⟩
    | vertical w => exact ⟨_, _, rfl, rfl, close_meet (.vertical w) (.vertical v)⟩
    | segment s => exact commute_of_eq (exists_meetSegment s (.vertical v)) rfl rfl
  | segment s =>
    cases b with
    | placeholder => exact absurd rfl hb
    | empty => exact ⟨.empty, .empty, rfl, rfl, rfl⟩
    | point p =>
      have hresult := exists_meetBy (point p) (exists_intersectStraight p s.support)
      exact commute_of_eq hresult rfl rfl
    | line l => exact commute_of_eq (exists_meetSegment s (.line l)) rfl rfl
    | vertical v => exact commute_of_eq (exists_meetSegment s (.vertical v)) rfl rfl
    | segment t => exact absurd ⟨s, t, rfl, rfl⟩ h

theorem IsCanonical.isConcrete {v : Value ℚ} (h : v.IsCanonical) : v.IsConcrete := by
  rintro rfl
  exact h

end Value

/-- Two canonical values have intersections in both orders, which are close unless the values are
contested segments. -/
theorem close_intersect_iff (a b : Value ℚ) (ha : a.IsCanonical) (hb : b.IsCanonical) :
    ∃ v w, (a.intersect b).result = .ok v ∧ (b.intersect a).result = .ok w ∧
      (v.close w = true ↔ ¬a.Contested b) := by
  by_cases hsegments : ∃ s t, a = .segment s ∧ b = .segment t
  · obtain ⟨s, t, rfl, rfl⟩ := hsegments
    by_cases hsame : s.support.Same t.support
    · exact ⟨t.common s, s.common t, Segment.result_intersect_of_same hsame,
        Segment.result_intersect_of_same hsame.symm, Segment.close_common_iff ha hb hsame⟩
    · obtain ⟨v, hv, hab, hba⟩ := Segment.exists_result_of_not_same hsame
      refine ⟨v, v, hab, hba, iff_of_true (Value.close_self hv) ?_⟩
      rintro ⟨h, _⟩
      exact hsame h
  · obtain ⟨v, w, hab, hba, hclose⟩ :=
      Value.commute_of_not_segments ha.isConcrete hb.isConcrete hsegments
    refine ⟨v, w, hab, hba, iff_of_true hclose ?_⟩
    intro h
    cases a with
    | segment s =>
      cases b with
      | segment t => exact hsegments ⟨s, t, rfl, rfl⟩
      | _ => exact h
    | _ => exact h

/-- A level segment. -/
def Segment.level : Segment ℚ := ⟨0, 0, 10, 0⟩

/-- A segment that leaves `Segment.level` by less than the tolerance in each unit of length. -/
def Segment.tilted : Segment ℚ := ⟨0, 0, 10, 1 / 20000⟩

theorem Segment.isCanonical_level : Segment.level.IsCanonical := by
  constructor <;> decide +kernel

theorem Segment.isCanonical_tilted : Segment.tilted.IsCanonical := by
  constructor <;> decide +kernel

theorem close_intersect_iff_tilted :
    ∃ v w, ((Value.segment .level).intersect (.segment .tilted)).result = .ok v ∧
      ((Value.segment .tilted).intersect (.segment .level)).result = .ok w ∧
      (v.close w = true ↔ ¬(Value.segment .level).Contested (.segment .tilted)) := by
  exact close_intersect_iff _ _ Segment.isCanonical_level Segment.isCanonical_tilted

/-- Two segments that start at the same point may be taken for parts of one line although their
other ends are not close, and then the order decides between those ends. -/
theorem intersect_not_close :
    (Value.segment .level).IsCanonical ∧ (Value.segment .tilted).IsCanonical ∧
      ((Value.segment .level).intersect (.segment .tilted)).result = .ok (.segment .level) ∧
      ((Value.segment .tilted).intersect (.segment .level)).result = .ok (.segment .tilted) ∧
      (Value.segment .level).close (.segment .tilted) = false := by
  refine ⟨Segment.isCanonical_level, Segment.isCanonical_tilted, ?_⟩
  decide +kernel

end Planar
