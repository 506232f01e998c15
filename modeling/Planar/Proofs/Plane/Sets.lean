import Planar.Proofs.Plane.Tolerance
import Planar.Value.Intersection

/-!
# Values as sets of points

What a value over the rationals is: a set of points of the plane.

* `Value.points`, `Straight.points`, `Segment.points` — the sets;
* `Segment.mem_points_iff` — on its line, an ordered segment is an interval of one coordinate;
* `Segment.line_eq_of_mem` — two points determine a line;
* `Segment.Aligned` — two segments of one line, and what they share in each position;
* `Straight.inter_of_slopes` and its companions — what two lines share.
-/

namespace Planar

/-! ## Points of lines and segments -/

/-- The points of a line. -/
def Straight.points : Straight ℚ → Set (Point ℚ)
  | line l => {p | p.y = l.slope * p.x + l.intercept}
  | vertical v => {p | p.x = v.x}

/-- The points of a closed segment. -/
def Segment.points (s : Segment ℚ) : Set (Point ℚ) :=
  {p | ∃ t : ℚ, 0 ≤ t ∧ t ≤ 1 ∧
    p.x = s.x₁ + t * (s.x₂ - s.x₁) ∧ p.y = s.y₁ + t * (s.y₂ - s.y₁)}

/-- The points of a value; the placeholder has none. -/
def Value.points : Value ℚ → Set (Point ℚ)
  | empty => ∅
  | point p => {p}
  | line l => (Straight.line l).points
  | vertical v => (Straight.vertical v).points
  | segment s => s.points
  | placeholder => ∅

/-- The set of points moved by an offset. -/
def translate (dx dy : ℚ) (S : Set (Point ℚ)) : Set (Point ℚ) :=
  {p | (⟨p.x - dx, p.y - dy⟩ : Point ℚ) ∈ S}

namespace Straight

/-- The axis that tells the points of a line apart. -/
def upright : Straight ℚ → Bool
  | line _ => false
  | vertical _ => true

end Straight

/-- The coordinate of a point on the axis in use. -/
def Point.along (upright : Bool) (p : Point ℚ) : ℚ := if upright then p.y else p.x

theorem Point.eq_of_along {l : Straight ℚ} {p q : Point ℚ} (hp : p ∈ l.points) (hq : q ∈ l.points)
    (h : p.along l.upright = q.along l.upright) : p = q := by
  obtain ⟨px, py⟩ := p
  obtain ⟨qx, qy⟩ := q
  cases l with
  | line l =>
    obtain rfl : px = qx := h
    obtain rfl : py = qy := hp.trans hq.symm
    rfl
  | vertical v =>
    obtain rfl : py = qy := h
    obtain rfl : px = qx := hp.trans hq.symm
    rfl

namespace Segment

variable {s t : Segment ℚ} {p : Point ℚ}

/-- The first end of a segment. -/
def first (s : Segment ℚ) : Point ℚ := ⟨s.x₁, s.y₁⟩

/-- The second end of a segment. -/
def second (s : Segment ℚ) : Point ℚ := ⟨s.x₂, s.y₂⟩

theorem along_second (s : Segment ℚ) (upright : Bool) :
    s.second.along upright = s.stop upright := by
  cases upright <;> rfl

theorem first_mem_points (s : Segment ℚ) : s.first ∈ s.points :=
  ⟨0, le_rfl, zero_le_one, by simp [first], by simp [first]⟩

theorem second_mem_points (s : Segment ℚ) : s.second ∈ s.points :=
  ⟨1, zero_le_one, le_rfl, by simp [second], by simp [second]⟩

theorem points_swap (s : Segment ℚ) : s.swap.points = s.points := by
  have hsub : ∀ s : Segment ℚ, s.points ⊆ s.swap.points := by
    rintro s p ⟨t, h₀, h₁, hx, hy⟩
    refine ⟨1 - t, by linarith, by linarith, ?_, ?_⟩
    · rw [hx, swap]
      ring
    · rw [hy, swap]
      ring
  exact (hsub s.swap).antisymm (hsub s)

theorem points_eq_singleton (hx : s.x₁ = s.x₂) (hy : s.y₁ = s.y₂) : s.points = {s.first} := by
  ext ⟨px, py⟩
  constructor
  · rintro ⟨t, _, _, h₁, h₂⟩
    simp only [hx, hy, sub_self, mul_zero, add_zero] at h₁ h₂
    rw [Set.mem_singleton_iff, first, hx, hy, ← h₁, ← h₂]
  · intro h
    rw [Set.mem_singleton_iff.1 h]
    exact s.first_mem_points

/-- Whether the ends of a segment are distinct and in order, by `x` and then by `y`. -/
def Ordered (s : Segment ℚ) : Prop := s.x₁ < s.x₂ ∨ s.x₁ = s.x₂ ∧ s.y₁ < s.y₂

/-- The line through the ends of a segment. -/
def line (s : Segment ℚ) : Straight ℚ :=
  if s.x₁ = s.x₂ then .vertical ⟨s.x₁⟩
  else .line ⟨(s.y₂ - s.y₁) / (s.x₂ - s.x₁), s.y₁ - (s.y₂ - s.y₁) / (s.x₂ - s.x₁) * s.x₁⟩

theorem line_of_eq (h : s.x₁ = s.x₂) : s.line = .vertical ⟨s.x₁⟩ := if_pos h

theorem line_of_ne (h : s.x₁ ≠ s.x₂) :
    s.line = .line ⟨(s.y₂ - s.y₁) / (s.x₂ - s.x₁),
      s.y₁ - (s.y₂ - s.y₁) / (s.x₂ - s.x₁) * s.x₁⟩ := if_neg h

theorem upright_line : s.line.upright = true ↔ s.x₁ = s.x₂ := by
  by_cases h : s.x₁ = s.x₂
  · rw [line_of_eq h]
    exact iff_of_true rfl h
  · rw [line_of_ne h]
    exact iff_of_false Bool.false_ne_true h

theorem mem_line_of_ne (h : s.x₁ ≠ s.x₂) :
    p ∈ s.line.points ↔ (p.y - s.y₁) * (s.x₂ - s.x₁) = (s.y₂ - s.y₁) * (p.x - s.x₁) := by
  have hne : s.x₂ - s.x₁ ≠ 0 := sub_ne_zero.2 h.symm
  rw [line_of_ne h]
  show p.y = _ ↔ _
  field_simp
  constructor
  · intro heq
    linarith
  · intro heq
    linarith

theorem mem_line_of_eq (h : s.x₁ = s.x₂) : p ∈ s.line.points ↔ p.x = s.x₁ := by
  rw [line_of_eq h]
  exact Iff.rfl

theorem points_subset_line (s : Segment ℚ) : s.points ⊆ s.line.points := by
  rintro p ⟨t, _, _, hx, hy⟩
  by_cases h : s.x₁ = s.x₂
  · rw [mem_line_of_eq h, hx, ← h]
    ring
  · rw [mem_line_of_ne h, hx, hy]
    ring

/-- Two points determine a line. -/
theorem line_eq_of_mem (h : s.Ordered) {l : Straight ℚ} (h₁ : s.first ∈ l.points)
    (h₂ : s.second ∈ l.points) : s.line = l := by
  cases l with
  | vertical v =>
    have hx₁ : s.x₁ = v.x := h₁
    have hx₂ : s.x₂ = v.x := h₂
    rw [line_of_eq (hx₁.trans hx₂.symm), hx₁]
  | line l =>
    have hy₁ : s.y₁ = l.slope * s.x₁ + l.intercept := h₁
    have hy₂ : s.y₂ = l.slope * s.x₂ + l.intercept := h₂
    have hne : s.x₁ ≠ s.x₂ := by
      intro hx
      rcases h with hlt | ⟨_, hlt⟩
      · exact hlt.ne hx
      · rw [hy₁, hy₂, hx] at hlt
        exact lt_irrefl _ hlt
    have hslope : (s.y₂ - s.y₁) / (s.x₂ - s.x₁) = l.slope := by
      rw [div_eq_iff (sub_ne_zero.2 hne.symm), hy₁, hy₂]
      ring
    rw [line_of_ne hne, hslope, hy₁]
    congr 2
    ring

theorem start_lt_stop (h : s.Ordered) : s.start s.line.upright < s.stop s.line.upright := by
  rcases h with hlt | ⟨heq, hlt⟩
  · rw [line_of_ne hlt.ne]
    exact hlt
  · rw [line_of_eq heq]
    exact hlt

/-- On its line, an ordered segment is an interval of the coordinate in use. -/
theorem mem_points_iff (h : s.Ordered) :
    p ∈ s.points ↔ p ∈ s.line.points ∧
      s.start s.line.upright ≤ p.along s.line.upright ∧
        p.along s.line.upright ≤ s.stop s.line.upright := by
  constructor
  · intro hp
    refine ⟨points_subset_line s hp, ?_⟩
    obtain ⟨t, h₀, h₁, hx, hy⟩ := hp
    rcases h with hlt | ⟨heq, hlt⟩
    · rw [line_of_ne hlt.ne]
      show s.x₁ ≤ p.x ∧ p.x ≤ s.x₂
      rw [hx]
      constructor <;> nlinarith
    · rw [line_of_eq heq]
      show s.y₁ ≤ p.y ∧ p.y ≤ s.y₂
      rw [hy]
      constructor <;> nlinarith
  · rintro ⟨hline, hlow, hhigh⟩
    rcases h with hlt | ⟨heq, hlt⟩
    · rw [mem_line_of_ne hlt.ne] at hline
      rw [line_of_ne hlt.ne] at hlow hhigh
      have hlow : s.x₁ ≤ p.x := hlow
      have hhigh : p.x ≤ s.x₂ := hhigh
      have hpos : 0 < s.x₂ - s.x₁ := sub_pos.2 hlt
      refine ⟨(p.x - s.x₁) / (s.x₂ - s.x₁), div_nonneg (sub_nonneg.2 hlow) hpos.le, ?_, ?_, ?_⟩
      · rw [div_le_one hpos]
        linarith
      · rw [div_mul_cancel₀ _ hpos.ne']
        ring
      · rw [div_mul_eq_mul_div, mul_comm, ← hline, mul_div_cancel_right₀ _ hpos.ne']
        ring
    · rw [mem_line_of_eq heq] at hline
      rw [line_of_eq heq] at hlow hhigh
      have hlow : s.y₁ ≤ p.y := hlow
      have hhigh : p.y ≤ s.y₂ := hhigh
      have hpos : 0 < s.y₂ - s.y₁ := sub_pos.2 hlt
      refine ⟨(p.y - s.y₁) / (s.y₂ - s.y₁), div_nonneg (sub_nonneg.2 hlow) hpos.le, ?_, ?_, ?_⟩
      · rw [div_le_one hpos]
        linarith
      · rw [hline, ← heq]
        ring
      · rw [div_mul_cancel₀ _ hpos.ne']
        ring

theorem within_of_mem_points (hp : p ∈ s.points) :
    Within p.x s.x₁ s.x₂ ∧ Within p.y s.y₁ s.y₂ := by
  have hbetween : ∀ t a b : ℚ, 0 ≤ t → t ≤ 1 → Within (a + t * (b - a)) a b := by
    intro t a b h₀ h₁
    rcases le_total a b with hab | hab
    · rw [Within, min_eq_left hab, max_eq_right hab]
      constructor <;> nlinarith
    · rw [Within, min_eq_right hab, max_eq_left hab]
      constructor <;> nlinarith
  obtain ⟨t, h₀, h₁, hx, hy⟩ := hp
  rw [hx, hy]
  exact ⟨hbetween t s.x₁ s.x₂ h₀ h₁, hbetween t s.y₁ s.y₂ h₀ h₁⟩

/-- A point on the line of a segment is in the segment if both its coordinates are within it. -/
theorem mem_points_of_within (h : s.Ordered) (hp : p ∈ s.line.points)
    (hx : Within p.x s.x₁ s.x₂) (hy : Within p.y s.y₁ s.y₂) : p ∈ s.points := by
  rw [mem_points_iff h]
  refine ⟨hp, ?_⟩
  rcases h with hlt | ⟨heq, hlt⟩
  · rw [Within, min_eq_left hlt.le, max_eq_right hlt.le] at hx
    rw [line_of_ne hlt.ne]
    exact hx
  · rw [Within, min_eq_left hlt.le, max_eq_right hlt.le] at hy
    rw [line_of_eq heq]
    exact hy

/-- A row of two ends on one line, the first before the second, is an ordered segment. -/
theorem ordered_of_mem {l : Straight ℚ} (h₁ : s.first ∈ l.points) (h₂ : s.second ∈ l.points)
    (hlt : s.start l.upright < s.stop l.upright) : s.Ordered := by
  cases l with
  | line l => exact .inl hlt
  | vertical v => exact .inr ⟨h₁.trans h₂.symm, hlt⟩

/-! ## Two segments of one line -/

/-- Two ordered segments of one line, the first of which starts no later along the axis in use. -/
structure Aligned (l : Straight ℚ) (s t : Segment ℚ) : Prop where
  first_ordered : s.Ordered
  second_ordered : t.Ordered
  first_line : s.line = l
  second_line : t.line = l
  start_le : s.start l.upright ≤ t.start l.upright

namespace Aligned

variable {l : Straight ℚ}

theorem mem_inter_iff (h : Aligned l s t) :
    p ∈ s.points ∩ t.points ↔ p ∈ l.points ∧ t.start l.upright ≤ p.along l.upright ∧
      p.along l.upright ≤ s.stop l.upright ∧ p.along l.upright ≤ t.stop l.upright := by
  rw [Set.mem_inter_iff, mem_points_iff h.first_ordered, mem_points_iff h.second_ordered,
    h.first_line, h.second_line]
  constructor
  · rintro ⟨⟨hl, _, hs⟩, _, hstart, ht⟩
    exact ⟨hl, hstart, hs, ht⟩
  · rintro ⟨hl, hstart, hs, ht⟩
    exact ⟨⟨hl, h.start_le.trans hstart, hs⟩, hl, hstart, ht⟩

theorem first_second_mem (h : Aligned l s t) : s.second ∈ l.points := by
  rw [← h.first_line]
  exact points_subset_line s s.second_mem_points

theorem second_first_mem (h : Aligned l s t) : t.first ∈ l.points := by
  rw [← h.second_line]
  exact points_subset_line t t.first_mem_points

theorem second_start_lt (h : Aligned l s t) : t.start l.upright < t.stop l.upright := by
  rw [← h.second_line]
  exact start_lt_stop h.second_ordered

theorem inter_of_touch (h : Aligned l s t) (htouch : s.stop l.upright = t.start l.upright) :
    s.points ∩ t.points = {s.second} := by
  ext p
  rw [h.mem_inter_iff, Set.mem_singleton_iff]
  constructor
  · rintro ⟨hl, hstart, hstop, _⟩
    refine Point.eq_of_along hl h.first_second_mem ?_
    rw [along_second]
    exact le_antisymm hstop (htouch.le.trans hstart)
  · rintro rfl
    rw [along_second, htouch]
    exact ⟨h.first_second_mem, le_rfl, le_rfl, h.second_start_lt.le⟩

theorem inter_of_apart (h : Aligned l s t) (hlt : s.stop l.upright < t.start l.upright) :
    s.points ∩ t.points = ∅ := by
  ext p
  rw [h.mem_inter_iff]
  refine iff_of_false ?_ (Set.notMem_empty p)
  rintro ⟨_, hstart, hstop, _⟩
  exact absurd (hstart.trans hstop) (not_le.2 hlt)

theorem inter_of_inside (h : Aligned l s t) (hlt : t.stop l.upright < s.stop l.upright) :
    s.points ∩ t.points = t.points := by
  ext p
  rw [h.mem_inter_iff, mem_points_iff h.second_ordered, h.second_line]
  constructor
  · rintro ⟨hl, hstart, _, hstop⟩
    exact ⟨hl, hstart, hstop⟩
  · rintro ⟨hl, hstart, hstop⟩
    exact ⟨hl, hstart, hstop.trans hlt.le, hstop⟩

/-- The part from the start of the second segment to the end of the first. -/
theorem inter_of_part (h : Aligned l s t) (hlt : t.start l.upright < s.stop l.upright)
    (hle : s.stop l.upright ≤ t.stop l.upright) :
    (⟨t.x₁, t.y₁, s.x₂, s.y₂⟩ : Segment ℚ).Ordered ∧
      s.points ∩ t.points = (⟨t.x₁, t.y₁, s.x₂, s.y₂⟩ : Segment ℚ).points := by
  have hstart : (⟨t.x₁, t.y₁, s.x₂, s.y₂⟩ : Segment ℚ).start l.upright = t.start l.upright := by
    cases l.upright <;> rfl
  have hstop : (⟨t.x₁, t.y₁, s.x₂, s.y₂⟩ : Segment ℚ).stop l.upright = s.stop l.upright := by
    cases l.upright <;> rfl
  have hordered : (⟨t.x₁, t.y₁, s.x₂, s.y₂⟩ : Segment ℚ).Ordered := by
    refine ordered_of_mem h.second_first_mem h.first_second_mem ?_
    rw [hstart, hstop]
    exact hlt
  have hline := line_eq_of_mem hordered h.second_first_mem h.first_second_mem
  refine ⟨hordered, ?_⟩
  ext p
  rw [h.mem_inter_iff, mem_points_iff hordered, hline, hstart, hstop]
  constructor
  · rintro ⟨hl, hfrom, hto, _⟩
    exact ⟨hl, hfrom, hto⟩
  · rintro ⟨hl, hfrom, hto⟩
    exact ⟨hl, hfrom, hto, hto.trans hle⟩

end Aligned

end Segment

/-! ## Two lines -/

namespace Straight

theorem inter_of_parallel {l k : Line ℚ} (hslope : l.slope = k.slope)
    (hintercept : l.intercept ≠ k.intercept) :
    (line l).points ∩ (line k).points = ∅ := by
  ext p
  refine iff_of_false ?_ (Set.notMem_empty p)
  rintro ⟨hl, hk⟩
  have hl : p.y = l.slope * p.x + l.intercept := hl
  have hk : p.y = k.slope * p.x + k.intercept := hk
  rw [hslope] at hl
  exact hintercept (by linarith)

theorem inter_of_slopes {l k : Line ℚ} (h : l.slope ≠ k.slope) :
    (line l).points ∩ (line k).points =
      {⟨(k.intercept - l.intercept) / (l.slope - k.slope),
        l.slope * ((k.intercept - l.intercept) / (l.slope - k.slope)) + l.intercept⟩} := by
  have hne : l.slope - k.slope ≠ 0 := sub_ne_zero.2 h
  ext ⟨px, py⟩
  rw [Set.mem_singleton_iff, Point.mk.injEq]
  constructor
  · rintro ⟨hl, hk⟩
    have hl : py = l.slope * px + l.intercept := hl
    have hk : py = k.slope * px + k.intercept := hk
    have hx : px = (k.intercept - l.intercept) / (l.slope - k.slope) := by
      rw [eq_div_iff hne]
      linarith
    exact ⟨hx, by rw [← hx]; exact hl⟩
  · rintro ⟨hx, hy⟩
    rw [← hx] at hy
    rw [eq_div_iff hne] at hx
    refine ⟨hy, ?_⟩
    show py = k.slope * px + k.intercept
    linarith

theorem inter_vertical (l : Line ℚ) (v : Vertical ℚ) :
    (line l).points ∩ (vertical v).points = {⟨v.x, l.slope * v.x + l.intercept⟩} := by
  ext ⟨px, py⟩
  rw [Set.mem_singleton_iff, Point.mk.injEq]
  constructor
  · rintro ⟨hl, hv⟩
    obtain rfl : px = v.x := hv
    exact ⟨rfl, hl⟩
  · rintro ⟨rfl, rfl⟩
    exact ⟨rfl, rfl⟩

theorem inter_of_ne {v w : Vertical ℚ} (h : v.x ≠ w.x) :
    (vertical v).points ∩ (vertical w).points = ∅ := by
  ext p
  refine iff_of_false ?_ (Set.notMem_empty p)
  rintro ⟨hv, hw⟩
  exact h (hv.symm.trans hw)

end Straight

end Planar
