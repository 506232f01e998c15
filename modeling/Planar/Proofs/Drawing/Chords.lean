import Planar.Proofs.Drawing.Visibility
import Planar.Proofs.Plane.Sets
import Planar.Proofs.Run.Transparency

/-!
# The chord that a window shows of a line

A line that is vertical, level, or rises or falls by at least the tolerance has no crossing with the
sides of a window between the place where it enters the window and the one where it leaves. So of
these two crossings one is far from any third, and they cannot both be dropped for it: if the line
passes through the window at all, other than at a corner, then its chord is found.

* `Straight.meets_of_mem_crossing` — a crossing is where a line meets the line of a side, or an end of
  a side that lies along the line;
* `Window.OnBorder`, `Straight.gap` — the crossings lie on the border and near the line;
* `Line.exists_exit` — a line leaves a window in both directions;
* `Straight.exists_opposite` — two crossings to which no third is close;
* `clipToWindow_finds_chord` — the chord is found, and what is found is one.
-/

namespace Planar

open Scalar

/-! ## Crossings -/

namespace Straight

variable {l k : Straight ℚ} {s : Segment ℚ} {p : Point ℚ}

theorem meet_ne_point_of_same_slope {l k : Line ℚ} (h : close k.slope l.slope = true) :
    (line k).meet (line l) ≠ .point p := by
  intro hmeet
  have hmeet : k.atLine l = .point p := hmeet
  rw [Line.atLine, if_pos h] at hmeet
  split at hmeet <;> cases hmeet

theorem meet_vertical_ne_point (v u : Vertical ℚ) : (vertical v).meet (vertical u) ≠ .point p := by
  intro hmeet
  have hmeet : v.atVertical u = .point p := hmeet
  rw [Vertical.atVertical] at hmeet
  split at hmeet <;> cases hmeet

/-- Two lines meet in a point of both. -/
theorem mem_points_of_meet (h : k.meet l = .point p) : p ∈ k.points ∧ p ∈ l.points := by
  have hmem (k : Line ℚ) (v : Vertical ℚ) (h : k.atVertical v = .point p) :
      p ∈ (line k).points ∩ (vertical v).points := by
    rw [inter_vertical, ← Value.point.inj h]
    exact Set.mem_singleton _
  cases k with
  | line k =>
    cases l with
    | line l =>
      cases hslope : close k.slope l.slope with
      | true => exact absurd h (meet_ne_point_of_same_slope hslope)
      | false =>
        have h : k.atLine l = .point p := h
        rw [Line.atLine, if_neg (ne_true_of_eq_false hslope)] at h
        show p ∈ (line k).points ∩ (line l).points
        rw [inter_of_slopes (ne_of_not_close hslope), ← Value.point.inj h]
        exact Set.mem_singleton _
    | vertical v => exact hmem k v h
  | vertical v =>
    cases l with
    | line l => exact (hmem l v h).symm
    | vertical w => exact absurd h (meet_vertical_ne_point v w)

/-- A crossing is where the line meets the line of the side, or an end of a side that lies along the
line. -/
theorem meets_of_mem_crossing (h : p ∈ (l.crossing s).pins) :
    s.support.meet l = .point p ∨ s.support.Same l ∧ (p = s.first ∨ p = s.second) := by
  unfold crossing at h
  by_cases hsame : s.support.Same l
  · right
    rw [meet_of_same hsame] at h
    have hpins : ((s.support.toValue.clipped? s).getD .empty).pins = [s.first, s.second] := by
      cases s.support <;> rfl
    rw [hpins] at h
    exact ⟨hsame, List.mem_pair.1 h⟩
  · left
    obtain ⟨_, hsmall⟩ := meet_of_not_same hsame
    cases hmeet : s.support.meet l with
    | empty =>
      rw [hmeet] at h
      cases h
    | point q =>
      rw [hmeet] at h
      have h : p ∈ (q.within s).pins := h
      unfold Point.within at h
      split at h
      · rw [List.mem_singleton.1 h]
      · cases h
    | _ =>
      rw [hmeet] at hsmall
      exact hsmall.elim

end Straight

/-! ## Crossings lie on the border -/

namespace Window

/-- The points of a window, with its sides. -/
def area (w : Window ℚ) : Set (Point ℚ) := {p | w.Clears 0 p}

/-- Whether a point lies on a side of a window that is extended by a margin at both ends. -/
def OnBorder (w : Window ℚ) (margin : ℚ) (p : Point ℚ) : Prop :=
  (p.y = w.ymin ∨ p.y = w.ymax) ∧ w.xmin - margin ≤ p.x ∧ p.x ≤ w.xmax + margin ∨
    (p.x = w.xmin ∨ p.x = w.xmax) ∧ w.ymin - margin ≤ p.y ∧ p.y ≤ w.ymax + margin

/-- Whether a window is at least as wide and as high as the tolerance. -/
structure IsWide (w : Window ℚ) : Prop where
  width : tolerance ≤ w.xmax - w.xmin
  height : tolerance ≤ w.ymax - w.ymin

variable {w : Window ℚ} {l : Straight ℚ} {p : Point ℚ}

theorem IsWide.xmin_le (h : w.IsWide) : w.xmin ≤ w.xmax := by
  have hpos : (0 : ℚ) < tolerance := tolerance_pos
  linarith [h.width]

theorem IsWide.ymin_le (h : w.IsWide) : w.ymin ≤ w.ymax := by
  have hpos : (0 : ℚ) < tolerance := tolerance_pos
  linarith [h.height]

theorem IsWide.not_close (h : w.IsWide) : close w.xmin w.xmax = false := by
  rw [not_close_iff, abs_sub_comm]
  exact h.width.trans (le_abs_self _)

/-- A crossing with a level side is at the height of the side, where the line meets it or at an end. -/
structure MeetsLevel (w : Window ℚ) (l : Straight ℚ) (p : Point ℚ) : Prop where
  height : p.y = w.ymin ∨ p.y = w.ymax
  reach : between p.x w.xmin w.xmax = true
  meets : (Straight.line ⟨0, p.y⟩).meet l = .point p ∨
    (Straight.line ⟨0, p.y⟩).Same l ∧ (p.x = w.xmin ∨ p.x = w.xmax)

/-- A crossing with an upright side is straight above or below an end of the side, where the line
meets it or at an end. -/
structure MeetsUpright (w : Window ℚ) (l : Straight ℚ) (p : Point ℚ) : Prop where
  place : p.x = w.xmin ∨ p.x = w.xmax
  reach : between p.y w.ymin w.ymax = true
  meets : (Straight.vertical ⟨p.x⟩).meet l = .point p ∨
    (Straight.vertical ⟨p.x⟩).Same l ∧ (p.y = w.ymin ∨ p.y = w.ymax)

theorem meetsLevel_of_mem (hw : w.IsWide) {y : ℚ} (hy : y = w.ymin ∨ y = w.ymax)
    (h : p ∈ (l.crossing ⟨w.xmin, y, w.xmax, y⟩).pins) : w.MeetsLevel l p := by
  have hreach := (Bool.and_eq_true_iff.1 (Straight.covers_of_mem_crossing h)).1
  have hmeets := Straight.meets_of_mem_crossing h
  rw [Segment.support_level hw.not_close] at hmeets
  have hheight : p.y = y := by
    rcases hmeets with hmeet | ⟨_, rfl | rfl⟩
    · have hmem : p.y = 0 * p.x + y := (Straight.mem_points_of_meet hmeet).1
      rw [hmem, zero_mul, zero_add]
    · rfl
    · rfl
  subst hheight
  refine ⟨hy, hreach, hmeets.imp_right (And.imp_right (Or.imp ?_ ?_))⟩ <;> exact congrArg Point.x

theorem meetsUpright_of_mem {x : ℚ} (hx : x = w.xmin ∨ x = w.xmax)
    (h : p ∈ (l.crossing ⟨x, w.ymin, x, w.ymax⟩).pins) : w.MeetsUpright l p := by
  have hreach := (Bool.and_eq_true_iff.1 (Straight.covers_of_mem_crossing h)).2
  have hmeets := Straight.meets_of_mem_crossing h
  rw [Segment.support_upright] at hmeets
  have hplace : p.x = x := by
    rcases hmeets with hmeet | ⟨_, rfl | rfl⟩
    · exact (Straight.mem_points_of_meet hmeet).1
    · rfl
    · rfl
  subst hplace
  refine ⟨hx, hreach, hmeets.imp_right (And.imp_right (Or.imp ?_ ?_))⟩ <;> exact congrArg Point.y

theorem meets_of_mem_crossed (hw : w.IsWide) (h : p ∈ w.crossed l) :
    w.MeetsLevel l p ∨ w.MeetsUpright l p := by
  simp only [crossed, sides, List.flatMap_cons, List.flatMap_nil, List.mem_append,
    List.not_mem_nil, or_false] at h
  rcases h with h | h | h | h
  · exact .inl (meetsLevel_of_mem hw (.inl rfl) h)
  · exact .inl (meetsLevel_of_mem hw (.inr rfl) h)
  · exact .inr (meetsUpright_of_mem (.inl rfl) h)
  · exact .inr (meetsUpright_of_mem (.inr rfl) h)

/-- The crossings of a line lie on the sides, extended by the tolerance. -/
theorem onBorder_of_mem_crossed (hw : w.IsWide) (h : p ∈ w.crossed l) :
    w.OnBorder tolerance p := by
  rcases meets_of_mem_crossed hw h with hmeets | hmeets
  · have hreach := between_iff.1 hmeets.reach
    rw [min_eq_left hw.xmin_le, max_eq_right hw.xmin_le] at hreach
    exact .inl ⟨hmeets.height, hreach⟩
  · have hreach := between_iff.1 hmeets.reach
    rw [min_eq_left hw.ymin_le, max_eq_right hw.ymin_le] at hreach
    exact .inr ⟨hmeets.place, hreach⟩

end Window

/-! ## Crossings lie near the line -/

namespace Straight

/-- How far a point is from a line, vertically, or horizontally if the line is vertical. -/
def gap : Straight ℚ → Point ℚ → ℚ
  | line l, p => p.y - l.at p.x
  | vertical v, p => p.x - v.x

/-- Whether a line is vertical, level, or rises or falls by at least the tolerance. -/
def IsClear : Straight ℚ → Prop
  | line l => l.slope = 0 ∨ tolerance ≤ |l.slope|
  | vertical _ => True

variable {l : Straight ℚ} {w : Window ℚ} {p : Point ℚ}

theorem gap_eq_zero (h : p ∈ l.points) : l.gap p = 0 := by
  cases l with
  | line l => exact sub_eq_zero.2 h
  | vertical v => exact sub_eq_zero.2 h

theorem IsClear.slope_eq_zero {l : Line ℚ} (h : (line l).IsClear) (hclose : close l.slope 0 = true) :
    l.slope = 0 := by
  refine h.resolve_right (not_le.2 ?_)
  rwa [close_iff, sub_zero] at hclose

/-- The crossings of a line are within the tolerance of it. -/
theorem abs_gap_lt_of_mem_crossed (hw : w.IsWide) (hl : l.IsClear) (h : p ∈ w.crossed l) :
    |l.gap p| < tolerance := by
  have hon (hmem : p ∈ l.points) : |l.gap p| < tolerance := by
    rw [gap_eq_zero hmem, abs_zero]
    exact tolerance_pos
  rcases w.meets_of_mem_crossed hw h with ⟨_, _, hmeet | ⟨hsame, _⟩⟩ | ⟨_, _, hmeet | ⟨hsame, _⟩⟩
  · exact hon (mem_points_of_meet hmeet).2
  · cases l with
    | line l =>
      obtain ⟨hslope, hintercept⟩ := hsame
      rw [close_comm] at hslope
      rw [close_iff] at hintercept
      rw [gap, Line.at, hl.slope_eq_zero hslope, zero_mul, zero_add]
      exact hintercept
    | vertical v => exact hsame.elim
  · exact hon (mem_points_of_meet hmeet).2
  · cases l with
    | line l => exact hsame.elim
    | vertical v => exact close_iff.1 hsame

end Straight

/-! ## Two crossings far apart -/

/-- Whether no point is close to both of two points of a list. -/
structure Opposite (points : List (Point ℚ)) (p q : Point ℚ) : Prop where
  first_mem : p ∈ points
  second_mem : q ∈ points
  apart : ∀ k ∈ points, pointClose p.x p.y k.x k.y = true → pointClose q.x q.y k.x k.y = false

/-- If every point of a list has one of two coordinates that are apart, then two of its points with
different ones are opposite. -/
theorem Opposite.of_ends {points : List (Point ℚ)} {p q : Point ℚ} (hp : p ∈ points)
    (hq : q ∈ points) (h : (∀ k ∈ points, k.x = p.x ∨ k.x = q.x) ∧ tolerance ≤ |p.x - q.x| ∨
      (∀ k ∈ points, k.y = p.y ∨ k.y = q.y) ∧ tolerance ≤ |p.y - q.y|) : Opposite points p q := by
  refine ⟨hp, hq, fun k hk hclose => ?_⟩
  obtain ⟨hx, hy⟩ := Bool.and_eq_true_iff.1 hclose
  rw [close_iff] at hx hy
  rw [not_pointClose_iff]
  rcases h with ⟨hends, hapart⟩ | ⟨hends, hapart⟩
  · left
    rcases hends k hk with heq | heq
    · rwa [heq, abs_sub_comm]
    · rw [heq] at hx
      exact absurd hapart (not_le.2 hx)
  · right
    rcases hends k hk with heq | heq
    · rwa [heq, abs_sub_comm]
    · rw [heq] at hy
      exact absurd hapart (not_le.2 hy)

namespace Line

variable {l : Line ℚ} {w : Window ℚ} {a b p q k : Point ℚ}

/-- On a line that is not level, heights are in between if and only if places are. -/
theorem within_of_within_at (hslope : l.slope ≠ 0) {x u v : ℚ}
    (h : Within (l.at x) (l.at u) (l.at v)) : Within x u v := by
  simp only [Within, min_le_iff, le_max_iff, Line.at, add_le_add_iff_right] at h ⊢
  rcases lt_or_gt_of_ne hslope with hneg | hpos
  · simp only [mul_le_mul_left_of_neg hneg] at h
    exact h.symm
  · simp only [mul_le_mul_iff_right₀ hpos] at h
    exact h

/-- A line that reaches the height of a level side on the way from a point of the window to an
upright side leaves the window there. -/
theorem exists_exit_level (hw : w.IsWide) (hslope : close l.slope 0 = false) {x y : ℚ}
    (hx : x = w.xmin ∨ x = w.xmax) (hy : y = w.ymin ∨ y = w.ymax)
    (ha : a ∈ (Straight.line l).points) (hin : a ∈ w.area) (h : Within y (l.at x) a.y) :
    ∃ q ∈ w.crossed (.line l), q ∈ (Straight.line l).points ∧ q ∈ w.area ∧ Within q.x x a.x := by
  obtain ⟨hleft, hright, hbottom, htop⟩ := hin
  have hxmin := hw.xmin_le
  have hymin := hw.ymin_le
  have hne := ne_of_not_close hslope
  have ha : a.y = l.at a.x := ha
  obtain ⟨x₀, hx₀⟩ : ∃ x₀, l.at x₀ = y :=
    ⟨(y - l.intercept) / l.slope, by rw [Line.at, mul_div_cancel₀ _ hne, sub_add_cancel]⟩
  rw [← hx₀, ha] at h
  have hwithin := within_of_within_at hne h
  have hlow : w.xmin ≤ x₀ := by
    refine (le_min ?_ ?_).trans hwithin.1
    · rcases hx with rfl | rfl <;> linarith
    · linarith
  have hhigh : x₀ ≤ w.xmax := by
    refine hwithin.2.trans (max_le ?_ ?_)
    · rcases hx with rfl | rfl <;> linarith
    · linarith
  refine ⟨⟨x₀, y⟩, mem_crossed_level hw.not_close hslope hy hx₀ hlow hhigh, hx₀.symm, ?_, hwithin⟩
  rcases hy with rfl | rfl <;> constructor <;> dsimp only <;> linarith

/-- A line through a point of a window that is not taken to be level leaves the window on the way to
each upright side: at the bottom or the top if it gets below or above the window, and else at the
upright side itself. -/
theorem exists_exit (hw : w.IsWide) (hslope : close l.slope 0 = false) {x : ℚ}
    (hx : x = w.xmin ∨ x = w.xmax) (ha : a ∈ (Straight.line l).points) (hin : a ∈ w.area) :
    ∃ q ∈ w.crossed (.line l), q ∈ (Straight.line l).points ∧ q ∈ w.area ∧ Within q.x x a.x := by
  have hbottom : w.ymin ≤ a.y := by linarith [hin.bottom]
  have htop : a.y ≤ w.ymax := by linarith [hin.top]
  by_cases hlow : l.at x < w.ymin
  · exact exists_exit_level hw hslope hx (.inl rfl) ha hin
      ⟨min_le_of_left_le hlow.le, le_max_of_le_right hbottom⟩
  · by_cases hhigh : w.ymax < l.at x
    · exact exists_exit_level hw hslope hx (.inr rfl) ha hin
        ⟨min_le_of_right_le htop, le_max_of_le_left hhigh.le⟩
    · have hlow := not_lt.1 hlow
      have hhigh := not_lt.1 hhigh
      have hxmin := hw.xmin_le
      refine ⟨⟨x, l.at x⟩, mem_crossed_upright hx (between_of_le hlow hhigh), rfl, ?_,
        min_le_left _ _, le_max_left _ _⟩
      rcases hx with rfl | rfl <;> constructor <;> dsimp only <;> linarith

/-- The crossings of a line that is not taken to be level lie on it. -/
theorem mem_points_of_mem_crossed (hw : w.IsWide) (hslope : close l.slope 0 = false)
    (hk : k ∈ w.crossed (.line l)) : k ∈ (Straight.line l).points := by
  rcases w.meets_of_mem_crossed hw hk with ⟨_, _, hmeet | ⟨hsame, _⟩⟩ | ⟨_, _, hmeet | ⟨hsame, _⟩⟩
  · exact (Straight.mem_points_of_meet hmeet).2
  · rw [close_comm] at hslope
    exact absurd (hsame.1.symm.trans hslope) nofun
  · exact (Straight.mem_points_of_meet hmeet).2
  · exact hsame.elim

theorem sub_eq_slope_mul (hp : p ∈ (Straight.line l).points) (hq : q ∈ (Straight.line l).points) :
    p.y - q.y = l.slope * (p.x - q.x) := by
  have hp : p.y = l.slope * p.x + l.intercept := hp
  have hq : q.y = l.slope * q.x + l.intercept := hq
  rw [hp, hq]
  ring

/-- No crossing of a line lies strictly between two of its points in the window. -/
theorem le_or_le_of_mem_crossed (hw : w.IsWide) (hslope : close l.slope 0 = false)
    (hk : k ∈ w.crossed (.line l)) (hp : p ∈ (Straight.line l).points) (hpin : p ∈ w.area)
    (hq : q ∈ (Straight.line l).points) (hqin : q ∈ w.area) : k.x ≤ p.x ∨ q.x ≤ k.x := by
  by_contra hstrict
  push Not at hstrict
  obtain ⟨hpk, hkq⟩ := hstrict
  have hkl := mem_points_of_mem_crossed hw hslope hk
  have hfirst := sub_eq_slope_mul hkl hp
  have hsecond := sub_eq_slope_mul hq hkl
  obtain ⟨hpleft, _, hpbottom, hptop⟩ := hpin
  obtain ⟨_, hqright, hqbottom, hqtop⟩ := hqin
  rcases w.meets_of_mem_crossed hw hk with hmeets | hmeets
  · -- the heights of the crossing and of the two points are in order too, one way or the other
    rcases lt_or_gt_of_ne (ne_of_not_close hslope) with hneg | hpos
    · have hdown := mul_neg_of_neg_of_pos hneg (sub_pos.2 hpk)
      have hdown' := mul_neg_of_neg_of_pos hneg (sub_pos.2 hkq)
      rcases hmeets.height with heq | heq <;> linarith
    · have hup := mul_pos hpos (sub_pos.2 hpk)
      have hup' := mul_pos hpos (sub_pos.2 hkq)
      rcases hmeets.height with heq | heq <;> linarith
  · rcases hmeets.place with heq | heq <;> linarith

/-- Points of a line with two others between them are as far apart as these. -/
theorem not_close_of_span (hp : p ∈ (Straight.line l).points) (hq : q ∈ (Straight.line l).points)
    (ha : a ∈ (Straight.line l).points) (hb : b ∈ (Straight.line l).points) (hpa : p.x ≤ a.x)
    (hab : a.x ≤ b.x) (hbq : b.x ≤ q.x) (h : pointClose a.x a.y b.x b.y = false) :
    pointClose p.x p.y q.x q.y = false := by
  have hx : |a.x - b.x| ≤ |p.x - q.x| := by
    rw [abs_sub_comm a.x, abs_sub_comm p.x, abs_of_nonneg (by linarith), abs_of_nonneg (by linarith)]
    linarith
  rw [not_pointClose_iff, sub_eq_slope_mul ha hb, abs_mul] at h
  rw [not_pointClose_iff, sub_eq_slope_mul hp hq, abs_mul]
  exact h.imp hx.trans' fun hy => hy.trans (mul_le_mul_of_nonneg_left hx (abs_nonneg _))

theorem exists_opposite (hw : w.IsWide) (hslope : close l.slope 0 = false)
    (ha : a ∈ (Straight.line l).points ∩ w.area) (hb : b ∈ (Straight.line l).points ∩ w.area)
    (hapart : pointClose a.x a.y b.x b.y = false) :
    ∃ p q, Opposite (w.crossed (.line l)) p q := by
  wlog hab : a.x ≤ b.x generalizing a b
  · rw [pointClose_comm] at hapart
    exact this hb ha hapart (le_of_not_ge hab)
  obtain ⟨p, hp, hpl, hpin, hpwithin⟩ := exists_exit hw hslope (.inl rfl) ha.1 ha.2
  obtain ⟨q, hq, hql, hqin, hqwithin⟩ := exists_exit hw hslope (.inr rfl) hb.1 hb.2
  have hpa : p.x ≤ a.x := hpwithin.2.trans (max_le (by linarith [ha.2.left]) le_rfl)
  have hbq : b.x ≤ q.x := hqwithin.1.trans' (le_min (by linarith [hb.2.right]) le_rfl)
  refine ⟨p, q, hp, hq, fun k hk hclose => ?_⟩
  have hkl := mem_points_of_mem_crossed hw hslope hk
  rcases le_or_le_of_mem_crossed hw hslope hk hpl hpin hql hqin with hkp | hqk
  · rw [pointClose_comm]
    exact not_close_of_span hkl hql ha.1 hb.1 (hkp.trans hpa) hab hbq hapart
  · have hfar := not_close_of_span hpl hkl ha.1 hb.1 hpa hab (hbq.trans hqk) hapart
    exact absurd (hclose.symm.trans hfar) nofun

end Line

namespace Straight

variable {l : Straight ℚ} {w : Window ℚ} {a b : Point ℚ}

/-- A line with two points in a window that are not close has opposite crossings. -/
theorem exists_opposite (hw : w.IsWide) (hl : l.IsClear) (ha : a ∈ l.points ∩ w.area)
    (hb : b ∈ l.points ∩ w.area) (hapart : pointClose a.x a.y b.x b.y = false) :
    ∃ p q, Opposite (w.crossed l) p q := by
  obtain ⟨hleft, hright, hbottom, htop⟩ := ha.2
  rw [add_zero] at hleft hbottom
  rw [sub_zero] at hright htop
  cases l with
  | line l =>
    cases hslope : close l.slope 0 with
    | false => exact l.exists_opposite hw hslope ha hb hapart
    | true =>
      -- the line runs from side to side, and all its crossings are at the sides
      have hzero := hl.slope_eq_zero hslope
      have hheight (x : ℚ) : between (l.at x) w.ymin w.ymax = true := by
        have hat : l.at x = a.y := by
          rw [show a.y = _ from ha.1, Line.at, hzero, zero_mul, zero_mul]
        rw [hat]
        exact between_of_le hbottom htop
      refine ⟨_, _, .of_ends (Line.mem_crossed_upright (.inl rfl) (hheight _))
        (Line.mem_crossed_upright (.inr rfl) (hheight _)) (.inl ⟨fun k hk => ?_, ?_⟩)⟩
      · rcases w.meets_of_mem_crossed hw hk with ⟨_, _, hmeet | ⟨_, hends⟩⟩ | ⟨hplace, _⟩
        · rw [close_comm] at hslope
          exact absurd hmeet (meet_ne_point_of_same_slope hslope)
        · exact hends
        · exact hplace
      · rw [abs_sub_comm]
        exact hw.width.trans (le_abs_self _)
  | vertical v =>
    have hx : a.x = v.x := ha.1
    have hbetween : between v.x w.xmin w.xmax = true := by
      rw [← hx]
      exact between_of_le hleft hright
    refine ⟨_, _, .of_ends (v.mem_crossed_level hw.not_close hbetween (.inl rfl))
      (v.mem_crossed_level hw.not_close hbetween (.inr rfl)) (.inr ⟨fun k hk => ?_, ?_⟩)⟩
    · rcases w.meets_of_mem_crossed hw hk with ⟨hheight, _⟩ | ⟨_, _, hmeet | ⟨_, hends⟩⟩
      · exact hheight
      · exact absurd hmeet (meet_vertical_ne_point _ _)
      · exact hends
    · rw [abs_sub_comm]
      exact hw.height.trans (le_abs_self _)

/-! ## Chords -/

/-- The ends of a chord: in order, not close, on the border up to the tolerance and near the line. -/
structure IsChord (l : Straight ℚ) (w : Window ℚ) (p q : Point ℚ) : Prop where
  before : p.x < q.x ∨ p.x = q.x ∧ p.y < q.y
  apart : pointClose p.x p.y q.x q.y = false
  first_border : w.OnBorder tolerance p
  second_border : w.OnBorder tolerance q
  first_near : |l.gap p| < tolerance
  second_near : |l.gap q| < tolerance

/-- If two crossings are opposite, then two are kept. -/
theorem isSome_extremes? (h : ∃ p q, Opposite (w.crossed l) p q) :
    (extremes? ((w.crossed l).foldl addHit [])).isSome := by
  obtain ⟨p, q, hp, hq, hapart⟩ := h
  have hmany : 2 ≤ ((w.crossed l).foldl addHit []).length :=
    two_le_length_of_opposite hp hq fun k hk => hapart k (hk.resolve_left List.not_mem_nil)
  obtain ⟨a, _, b, _, heq⟩ := exists_extremes? hmany
  rw [heq]
  rfl

/-- The outermost crossings that are kept are the ends of a chord. -/
theorem isChord_of_extremes? (hw : w.IsWide) (hl : l.IsClear) {p q : Point ℚ}
    (h : extremes? ((w.crossed l).foldl addHit []) = some (p, q)) : l.IsChord w p q := by
  have hkept : ((w.crossed l).foldl addHit []).Pairwise
      fun a b => pointClose a.x a.y b.x b.y = false := pairwise_foldl_addHit .nil
  have hmem : ∀ k ∈ (w.crossed l).foldl addHit [], k ∈ w.crossed l :=
    fun k hk => (mem_of_mem_foldl_addHit hk).resolve_left List.not_mem_nil
  generalize (w.crossed l).foldl addHit [] = kept at h hkept hmem
  rcases Nat.lt_or_ge kept.length 2 with hfew | hmany
  · rw [extremes?_eq_none hfew] at h
    cases h
  · obtain ⟨a, between, b, heq, hperm, hincreasing⟩ := exists_extremes?_eq hmany
    rw [heq] at h
    obtain ⟨rfl, rfl⟩ := Prod.mk.inj (Option.some.inj h)
    have hp : a ∈ w.crossed l := hmem a (hperm.mem_iff.1 List.mem_cons_self)
    have hq : b ∈ w.crossed l := hmem b (hperm.mem_iff.1 (by simp))
    have hsymm {c d : Point ℚ} (hfar : pointClose c.x c.y d.x d.y = false) :
        pointClose d.x d.y c.x c.y = false := by rwa [pointClose_comm]
    have hapart : pointClose a.x a.y b.x b.y = false :=
      List.rel_of_pairwise_cons ((hperm.pairwise_iff hsymm).2 hkept) (by simp)
    refine ⟨?_, hapart, w.onBorder_of_mem_crossed hw hp, w.onBorder_of_mem_crossed hw hq,
      abs_gap_lt_of_mem_crossed hw hl hp, abs_gap_lt_of_mem_crossed hw hl hq⟩
    have hafter : b.before a = false := List.rel_of_pairwise_cons hincreasing (by simp)
    rw [← Bool.not_eq_true, Point.before_iff] at hafter
    push Not at hafter
    obtain ⟨hle, hup⟩ := hafter
    rcases hle.lt_or_eq with hlt | heq
    · exact .inl hlt
    · refine .inr ⟨heq, lt_of_le_of_ne (hup heq.symm) fun hy => ?_⟩
      rw [heq, hy, pointClose, close_self, close_self] at hapart
      cases hapart

end Straight

/-- In a window that is as wide and as high as the tolerance, the part that is shown of a line which
is vertical, level, or rises or falls by at least the tolerance is found at every level. It is not
empty if the line and the window share a segment whose ends are not close, and if it is not empty,
then it is a chord. -/
theorem clipToWindow_finds_chord (w : Window ℚ) (hw : w.IsWide) (l : Straight ℚ) (hl : l.IsClear) :
    ∃ ends? : Option (Point ℚ × Point ℚ),
      (∀ level, (clipToWindow l.toValue w level).1 = .ok ends?) ∧
      (∀ s : Segment ℚ, l.points ∩ w.area = s.points →
        pointClose s.x₁ s.y₁ s.x₂ s.y₂ = false → ends?.isSome) ∧
      ∀ p q, ends? = some (p, q) → l.IsChord w p q := by
  have hconcrete : l.toValue.IsConcrete := by
    cases l <;> exact nofun
  refine ⟨_, fun level => ?_, fun s hs hapart => ?_, fun p q => Straight.isChord_of_extremes? hw hl⟩
  · have hsteady := ((DrawingDiscipline.steady ℚ 4).run_clipToWindow hconcrete w).steady
    rw [hsteady.fst_eq level, l.result_clipToWindow w]
  · have hfirst : s.first ∈ l.points ∩ w.area := hs ▸ s.first_mem_points
    have hsecond : s.second ∈ l.points ∩ w.area := hs ▸ s.second_mem_points
    exact Straight.isSome_extremes? (Straight.exists_opposite hw hl hfirst hsecond hapart)

/-- A diagonal that passes through two corners of a window. -/
theorem clipToWindow_finds_chord_corners :
    (⟨-1, 1, -1, 1⟩ : Window ℚ).IsWide ∧ (Straight.line (⟨1, 0⟩ : Line ℚ)).IsClear ∧
      ∃ p q, (∀ level, (clipToWindow (.line ⟨1, 0⟩) ⟨-1, 1, -1, 1⟩ level).1 = .ok (some (p, q))) ∧
        (Straight.line (⟨1, 0⟩ : Line ℚ)).IsChord ⟨-1, 1, -1, 1⟩ p q := by
  have hwide : (⟨-1, 1, -1, 1⟩ : Window ℚ).IsWide := ⟨by decide +kernel, by decide +kernel⟩
  have hclear : (Straight.line (⟨1, 0⟩ : Line ℚ)).IsClear := by
    right
    show (1 / 100000 : ℚ) ≤ |1|
    norm_num
  have hchord : (Straight.line (⟨1, 0⟩ : Line ℚ)).points ∩ Window.area ⟨-1, 1, -1, 1⟩ =
      (⟨-1, -1, 1, 1⟩ : Segment ℚ).points := by
    ext p
    constructor
    · rintro ⟨hline, hleft, hright, -, -⟩
      have hline : p.y = 1 * p.x + 0 := hline
      dsimp only at hleft hright
      exact ⟨(p.x + 1) / 2, by linarith, by linarith, by ring, by rw [hline]; ring⟩
    · rintro ⟨t, h₀, h₁, hx, hy⟩
      refine ⟨?_, ?_, ?_, ?_, ?_⟩
      · show p.y = 1 * p.x + 0
        rw [hx, hy]
        ring
      all_goals dsimp only at hx hy ⊢; linarith
  obtain ⟨ends?, hruns, hsome, hends⟩ := clipToWindow_finds_chord _ hwide _ hclear
  obtain ⟨⟨p, q⟩, rfl⟩ := Option.isSome_iff_exists.1 (hsome _ hchord (by decide +kernel))
  exact ⟨hwide, hclear, p, q, hruns, hends p q rfl⟩

end Planar
