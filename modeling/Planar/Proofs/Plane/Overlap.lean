import Planar.Proofs.Plane.CanonicalRuns
import Planar.Proofs.Plane.Sets

/-!
# Segments of one line

The points of a line are told apart by one coordinate, and a canonical segment of the line is an
interval of that coordinate. Clipping such a segment to another compares their ends one after the
other, and yields the interval from the greater of the two starts to the smaller of the two stops:
as a segment if it is as long as the tolerance, as the point where it stops if its length is within
the tolerance of zero, and else as nothing.

* `Straight.pointAt`, `Straight.span` — the points and segments of a line by their coordinates;
* `Straight.interval` — what an interval of a line is as a value;
* `Segment.RunsAlong` — the canonical segments of a line;
* `Segment.overlap_span`, `Segment.RunsAlong.common_eq` — two segments have an interval in common;
* `clip_eq_interval` — clipping is symmetric, and what it yields.
-/

namespace Planar

open Scalar

/-! ## Coordinates of a line -/

namespace Straight

/-- The point of a line at a coordinate of the axis in use. -/
def pointAt : Straight ℚ → ℚ → Point ℚ
  | line l, u => ⟨u, l.slope * u + l.intercept⟩
  | vertical v, u => ⟨v.x, u⟩

/-- The segment of a line from one coordinate to another. -/
def span (l : Straight ℚ) (lo hi : ℚ) : Segment ℚ :=
  ⟨(l.pointAt lo).x, (l.pointAt lo).y, (l.pointAt hi).x, (l.pointAt hi).y⟩

/-- What the interval from `lo` to `hi` of a line is as a value. -/
def interval (l : Straight ℚ) (lo hi : ℚ) : Value ℚ :=
  if tolerance ≤ hi - lo then .segment (l.span lo hi)
  else if hi - lo ≤ -tolerance then .empty
  else .point (l.pointAt hi)

variable {l : Straight ℚ} {lo hi : ℚ}

theorem pointAt_mem_points (l : Straight ℚ) (u : ℚ) : l.pointAt u ∈ l.points := by
  cases l <;> rfl

@[simp]
theorem along_pointAt (l : Straight ℚ) (u : ℚ) : (l.pointAt u).along l.upright = u := by
  cases l <;> rfl

/-- A point of a line is the one at its coordinate. -/
theorem eq_pointAt {p : Point ℚ} (hp : p ∈ l.points) : p = l.pointAt (p.along l.upright) :=
  Point.eq_of_along hp (l.pointAt_mem_points _) (l.along_pointAt _).symm

@[simp]
theorem start_span (l : Straight ℚ) (lo hi : ℚ) : (l.span lo hi).start l.upright = lo := by
  cases l <;> rfl

@[simp]
theorem stop_span (l : Straight ℚ) (lo hi : ℚ) : (l.span lo hi).stop l.upright = hi := by
  cases l <;> rfl

theorem interval_of_long (h : tolerance ≤ hi - lo) :
    l.interval lo hi = .segment (l.span lo hi) := if_pos h

theorem interval_of_short (h : |hi - lo| < tolerance) :
    l.interval lo hi = .point (l.pointAt hi) := by
  obtain ⟨hlow, hhigh⟩ := abs_lt.1 h
  rw [interval, if_neg (not_le.2 hhigh), if_neg (not_le.2 hlow)]

theorem interval_of_reversed (h : hi - lo ≤ -tolerance) : l.interval lo hi = .empty := by
  have hpos : (0 : ℚ) < tolerance := tolerance_pos
  rw [interval, if_neg (by linarith), if_pos h]

/-- A segment of a line that is as long as the tolerance is canonical. -/
theorem isCanonical_span (h : tolerance ≤ hi - lo) : (l.span lo hi).IsCanonical := by
  cases l with
  | line l => exact Segment.isCanonical_of_forward h
  | vertical v =>
    refine Segment.isCanonical_of_rises h ?_
    show v.x - v.x < tolerance
    rw [sub_self]
    exact tolerance_pos

end Straight

namespace Segment

theorem along_first (s : Segment ℚ) (upright : Bool) : s.first.along upright = s.start upright := by
  cases upright <;> rfl

/-! ## Two segments of one line -/

/-- Two segments of one line overlap from the start of the one that starts last to the first stop.
The one that starts last has to be as long as the tolerance: else the other could stop past it and
yet close to its start. -/
theorem overlap_span (l : Straight ℚ) {a b c d : ℚ} (h : tolerance ≤ d - c) :
    overlap l.upright (l.span a b) (l.span c d) = l.interval c (min b d) := by
  have hpos : (0 : ℚ) < tolerance := tolerance_pos
  unfold overlap
  rw [l.stop_span, l.start_span, l.stop_span]
  split
  case isTrue hclose =>
    rw [Scalar.close_iff] at hclose
    have hbd : b ≤ d := by linarith [(abs_lt.1 hclose).2]
    rw [min_eq_left hbd, Straight.interval_of_short hclose]
    rfl
  case isFalse hclose =>
    rw [Bool.not_eq_true, not_close_iff] at hclose
    split
    case isTrue hlt =>
      rw [lt_iff] at hlt
      rw [abs_of_neg (sub_neg.2 hlt)] at hclose
      have hbd : b ≤ d := by linarith
      rw [min_eq_left hbd, Straight.interval_of_reversed (by linarith)]
    case isFalse hle =>
      rw [lt_iff, not_lt] at hle
      rw [abs_of_nonneg (sub_nonneg.2 hle)] at hclose
      split
      case isTrue hdb =>
        rw [lt_iff] at hdb
        rw [min_eq_right hdb.le, Straight.interval_of_long h]
      case isFalse hbd =>
        rw [lt_iff, not_lt] at hbd
        rw [min_eq_left hbd, Straight.interval_of_long hclose]
        rfl

/-- Whether a segment is a canonical one of a line, and exactly upright or not upright even up to
the tolerance. -/
structure RunsAlong (l : Straight ℚ) (s : Segment ℚ) : Prop where
  canonical : s.IsCanonical
  first_mem : s.first ∈ l.points
  second_mem : s.second ∈ l.points
  leans : tolerance ≤ |s.x₁ - s.x₂| ∨ s.x₁ = s.x₂

/-- The segments of a line that are as long as the tolerance are of this kind. -/
theorem runsAlong_span {l : Straight ℚ} {lo hi : ℚ} (h : tolerance ≤ hi - lo) :
    (l.span lo hi).RunsAlong l where
  canonical := Straight.isCanonical_span h
  first_mem := l.pointAt_mem_points lo
  second_mem := l.pointAt_mem_points hi
  leans := by
    cases l with
    | line l =>
      refine .inl (h.trans ?_)
      rw [abs_sub_comm]
      exact le_abs_self (hi - lo)
    | vertical v => exact .inr rfl

namespace RunsAlong

variable {l : Straight ℚ} {s t : Segment ℚ}

/-- The axis in use is that of the line. -/
theorem isVertical_eq (h : s.RunsAlong l) : s.isVertical = l.upright := by
  cases l with
  | vertical v =>
    have hx : s.x₁ = s.x₂ := h.first_mem.trans h.second_mem.symm
    rw [isVertical, hx, close_self]
    rfl
  | line l =>
    rcases h.leans with hle | hx
    · exact not_close_iff.2 hle
    · -- both ends would be the point of the line above `s.x₁`
      have hends : s.first = s.second := Point.eq_of_along h.first_mem h.second_mem hx
      have hapart := h.canonical.apart
      rw [hx, (Point.mk.inj hends).2, pointClose, close_self, close_self] at hapart
      cases hapart

theorem eq_span (h : s.RunsAlong l) : s = l.span (s.start l.upright) (s.stop l.upright) := by
  have hfirst := Straight.eq_pointAt h.first_mem
  have hsecond := Straight.eq_pointAt h.second_mem
  rw [along_first] at hfirst
  rw [along_second] at hsecond
  rw [Straight.span, ← hfirst, ← hsecond]
  rfl

theorem tolerance_le (h : s.RunsAlong l) :
    tolerance ≤ s.stop l.upright - s.start l.upright := by
  have hvertical := h.isVertical_eq
  have hapart := h.canonical.apart
  rw [pointClose, Bool.and_eq_false_iff] at hapart
  cases hupright : l.upright with
  | true =>
    rw [hupright] at hvertical
    have hlt : s.y₁ < s.y₂ := h.canonical.rising hvertical
    have hclose : close s.y₁ s.y₂ = false :=
      hapart.resolve_left fun hfalse => absurd (hvertical.symm.trans hfalse) Bool.noConfusion
    rw [not_close_iff, abs_sub_comm, abs_of_pos (sub_pos.2 hlt)] at hclose
    exact hclose
  | false =>
    rw [hupright] at hvertical
    have hlt : s.x₁ < s.x₂ := h.canonical.forward hvertical
    rw [isVertical, not_close_iff, abs_sub_comm, abs_of_pos (sub_pos.2 hlt)] at hvertical
    exact hvertical

theorem overlap_eq {first second : Segment ℚ} (hfirst : first.RunsAlong l)
    (hsecond : second.RunsAlong l) :
    overlap l.upright first second = l.interval (second.start l.upright)
      (min (first.stop l.upright) (second.stop l.upright)) := by
  conv_lhs => rw [hfirst.eq_span, hsecond.eq_span]
  exact overlap_span l hsecond.tolerance_le

/-- Two segments of one line have the interval from the greater start to the smaller stop in
common. -/
theorem common_eq (hs : s.RunsAlong l) (ht : t.RunsAlong l) :
    s.common t = l.interval (max (s.start l.upright) (t.start l.upright))
      (min (s.stop l.upright) (t.stop l.upright)) := by
  unfold common
  rw [hs.isVertical_eq]
  dsimp only
  split
  case isTrue hlt =>
    rw [lt_iff] at hlt
    rw [overlap_eq hs ht, max_eq_right hlt.le]
  case isFalse hle =>
    rw [lt_iff, not_lt] at hle
    rw [overlap_eq ht hs, max_eq_left hle, min_comm]

end RunsAlong

end Segment

/-- Clipping two segments of one line to each other yields one value, whichever is clipped: with
`lo` the greater of the starts and `hi` the smaller of the stops, it is the segment from `lo` to `hi`
if `hi` is past `lo` by the tolerance, the point at `hi` if they are close, and empty if `hi` is
before `lo` by the tolerance. -/
theorem clip_eq_interval (l : Straight ℚ) (s t : Segment ℚ) (hs : s.RunsAlong l)
    (ht : t.RunsAlong l) (lo hi : ℚ) (hlo : lo = max (s.start l.upright) (t.start l.upright))
    (hhi : hi = min (s.stop l.upright) (t.stop l.upright)) :
    ∃ v, ((Value.segment s).clip t).result = .ok v ∧ ((Value.segment t).clip s).result = .ok v ∧
      (tolerance ≤ hi - lo → v = .segment (l.span lo hi) ∧ (l.span lo hi).IsCanonical) ∧
      (|hi - lo| < tolerance → v = .point (l.pointAt hi)) ∧
      (hi - lo ≤ -tolerance → v = .empty) := by
  have hcommon : s.common t = l.interval lo hi := by rw [hs.common_eq ht, hlo, hhi]
  have hcomm : t.common s = l.interval lo hi := by
    rw [ht.common_eq hs, hlo, hhi, max_comm, min_comm]
  refine ⟨l.interval lo hi, congrArg Except.ok hcommon, congrArg Except.ok hcomm, ?_, ?_, ?_⟩
  · exact fun hlong => ⟨Straight.interval_of_long hlong, Straight.isCanonical_span hlong⟩
  · exact Straight.interval_of_short
  · exact Straight.interval_of_reversed

/-- A line of slope one half. -/
def Straight.gentle : Straight ℚ := .line ⟨1 / 2, 1⟩

/-- The segment of `Straight.gentle` from the origin of its axis to four. -/
def Segment.approach : Segment ℚ := ⟨0, 1, 4, 3⟩

/-- A segment of `Straight.gentle` that starts past the end of `Segment.approach`, by half the
tolerance. -/
def Segment.onward : Segment ℚ := ⟨4 + 1 / 200000, 3 + 1 / 400000, 8, 5⟩

theorem clip_eq_interval_gentle :
    Segment.approach.RunsAlong .gentle ∧ Segment.onward.RunsAlong .gentle ∧
      ((Value.segment .approach).clip .onward).result = .ok (.point ⟨4, 3⟩) ∧
      ((Value.segment .onward).clip .approach).result = .ok (.point ⟨4, 3⟩) := by
  have happroach : Segment.approach.RunsAlong .gentle := by
    rw [show Segment.approach = Straight.gentle.span 0 4 by decide +kernel]
    exact Segment.runsAlong_span (by decide +kernel)
  have honward : Segment.onward.RunsAlong .gentle := by
    rw [show Segment.onward = Straight.gentle.span (4 + 1 / 200000) 8 by decide +kernel]
    exact Segment.runsAlong_span (by decide +kernel)
  obtain ⟨v, hclip, hclip', _, hpoint, _⟩ := clip_eq_interval .gentle .approach .onward happroach
    honward (4 + 1 / 200000) 4 (by decide +kernel) (by decide +kernel)
  have hv : v = .point ⟨4, 3⟩ := by
    rw [hpoint (by decide +kernel)]
    decide +kernel
  exact ⟨happroach, honward, hv ▸ hclip, hv ▸ hclip'⟩

end Planar
