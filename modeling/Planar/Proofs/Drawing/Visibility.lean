import Planar.Proofs.Drawing.Crossings
import Planar.Proofs.Drawing.Window

/-!
# Which lines a picture shows

The window of some values has an anchor of each of its lines well inside, so each line leaves the
window on two sides. A line is crossed with all four sides, but one whose slope is below the
tolerance counts as parallel to the bottom and to the top. If it leaves the window there all the
same, which takes a window that is very wide, it has fewer than two crossings and is taken to be
outside.

* `Line.at`, `Line.slips` — the height of a line, and the lines that are lost;
* `Line.exists_leaves` — a line that is not taken to be level crosses a side in each direction;
* `Line.shapeIn_of_slips`, `Line.exists_chord_of_not_slips` — exactly the lines that do not slip are
  shown;
* `CommandsOf`, `PictureOf` — the commands of an entry, and of all entries of a picture;
* `chords_iff_not_slips` — a picture warns about the lines that slip, and draws all others;
* `picture_skips_line` — such lines exist.
-/

namespace Planar

open Scalar

/-! ## Sides as lines -/

theorem two_mul_tolerance_le : (2 * tolerance : ℚ) ≤ 1 := by
  show (2 * (1 / 100000) : ℚ) ≤ 1
  norm_num

theorem ne_of_not_close {a b : ℚ} (h : close a b = false) : a ≠ b := by
  rintro rfl
  rw [close_self] at h
  cases h

namespace Segment

theorem support_upright (x a b : ℚ) : (⟨x, a, x, b⟩ : Segment ℚ).support = .vertical ⟨x⟩ := by
  have hvertical : (⟨x, a, x, b⟩ : Segment ℚ).isVertical = true := close_self x
  rw [support, if_pos hvertical]

theorem support_level {a b : ℚ} (h : close a b = false) (y : ℚ) :
    (⟨a, y, b, y⟩ : Segment ℚ).support = .line ⟨0, y⟩ := by
  have hvertical : ¬(⟨a, y, b, y⟩ : Segment ℚ).isVertical = true := ne_true_of_eq_false h
  rw [support, if_neg hvertical]
  simp

end Segment

/-! ## Lines with a slope -/

/-- The height of a line at `x`. -/
def Line.at (l : Line ℚ) (x : ℚ) : ℚ := l.slope * x + l.intercept

/-- Whether a window does not show a line although it may cross it: the slope counts as zero, and
the line misses the left or the right side. -/
def Line.slips (l : Line ℚ) (w : Window ℚ) : Bool :=
  close l.slope 0 &&
    !(between (l.at w.xmin) w.ymin w.ymax && between (l.at w.xmax) w.ymin w.ymax)

namespace Line

variable {l : Line ℚ} {w : Window ℚ}

/-- A line crosses an upright side in the point at its height, if that is within the side. -/
theorem pins_crossing_upright (l : Line ℚ) (x a b : ℚ) :
    ((Straight.line l).crossing ⟨x, a, x, b⟩).pins =
      if between (l.at x) a b then [⟨x, l.at x⟩] else [] := by
  have hcrossing : (Straight.line l).crossing ⟨x, a, x, b⟩ =
      (⟨x, l.at x⟩ : Point ℚ).within ⟨x, a, x, b⟩ := by
    rw [Straight.crossing, Segment.support_upright]
    rfl
  rw [hcrossing, Point.within, between_of_le le_rfl le_rfl, Bool.true_and]
  split <;> rfl

/-- A line crosses a level side in the point at the height of the side, if that is within the
side. -/
theorem mem_pins_crossing_level {a b x y : ℚ} (hside : close a b = false)
    (hslope : close l.slope 0 = false) (hx : l.at x = y) (hlow : a ≤ x) (hhigh : x ≤ b) :
    ⟨x, y⟩ ∈ ((Straight.line l).crossing ⟨a, y, b, y⟩).pins := by
  have hne := ne_of_not_close hslope
  have hmeet : (⟨0, y⟩ : Line ℚ).atLine l = .point ⟨x, y⟩ := by
    have hx' : (l.intercept - y) / (0 - l.slope) = x := by
      rw [← hx, Line.at]
      field_simp
      ring
    rw [close_comm] at hslope
    rw [atLine, if_neg (ne_true_of_eq_false hslope)]
    simp only [hx', zero_mul, zero_add]
  have hwithin : (⟨x, y⟩ : Point ℚ).within ⟨a, y, b, y⟩ = .point ⟨x, y⟩ := by
    rw [Point.within, between_of_le hlow hhigh, between_of_le le_rfl le_rfl]
    rfl
  have hcrossing : (Straight.line l).crossing ⟨a, y, b, y⟩ = .point ⟨x, y⟩ := by
    rw [Straight.crossing, Segment.support_level hside, Straight.meet, hmeet]
    exact hwithin
  rw [hcrossing]
  exact List.mem_singleton_self _

/-- A line that counts as parallel to a level side has nothing in common with it at another
height. -/
theorem pins_crossing_parallel {a b y : ℚ} (hside : close a b = false)
    (hslope : close l.slope 0 = true) (hheight : close l.intercept y = false) :
    ((Straight.line l).crossing ⟨a, y, b, y⟩).pins = [] := by
  have hmeet : (⟨0, y⟩ : Line ℚ).atLine l = .empty := by
    rw [close_comm] at hslope hheight
    rw [atLine, if_pos hslope, if_neg (ne_true_of_eq_false hheight)]
  rw [Straight.crossing, Segment.support_level hside, Straight.meet, hmeet]
  rfl

end Line

/-! ## Windows around an anchor -/

/-- The first anchor of a line. -/
def Straight.pin : Straight ℚ → Point ℚ
  | line l => ⟨0, l.intercept⟩
  | vertical v => ⟨v.x, 0⟩

namespace Window

variable {w : Window ℚ} {p : Point ℚ}

theorem Clears.not_close_x (h : w.Clears 1 p) : close w.xmin w.xmax = false := by
  have hpos : (0 : ℚ) < tolerance := tolerance_pos
  rw [not_close_iff, le_abs]
  right
  linarith [h.left, h.right, two_mul_tolerance_le]

theorem mem_crossed_of_mem {l : Straight ℚ} {s : Segment ℚ} (hs : s ∈ w.sides)
    (h : p ∈ (l.crossing s).pins) : p ∈ w.crossed l := List.mem_flatMap.2 ⟨s, hs, h⟩

end Window

namespace Line

variable {l : Line ℚ} {w : Window ℚ}

theorem mem_crossed_upright {x : ℚ} (hx : x = w.xmin ∨ x = w.xmax)
    (h : between (l.at x) w.ymin w.ymax = true) : ⟨x, l.at x⟩ ∈ w.crossed (.line l) := by
  refine Window.mem_crossed_of_mem (s := ⟨x, w.ymin, x, w.ymax⟩) ?_ ?_
  · rcases hx with rfl | rfl <;> simp [Window.sides]
  · rw [pins_crossing_upright, if_pos h]
    exact List.mem_singleton_self _

theorem mem_crossed_level {x y : ℚ} (hw : close w.xmin w.xmax = false)
    (hslope : close l.slope 0 = false) (hy : y = w.ymin ∨ y = w.ymax) (hx : l.at x = y)
    (hlow : w.xmin ≤ x) (hhigh : x ≤ w.xmax) : ⟨x, y⟩ ∈ w.crossed (.line l) := by
  refine Window.mem_crossed_of_mem (s := ⟨w.xmin, y, w.xmax, y⟩) ?_ ?_
  · rcases hy with rfl | rfl <;> simp [Window.sides]
  · exact mem_pins_crossing_level hw hslope hx hlow hhigh

/-- A line that rises or falls by `d` on the way from 0 to `x` does so first in between. -/
theorem exists_at_of_between (hslope : l.slope ≠ 0) {d x : ℚ}
    (h : 0 ≤ d ∧ d ≤ l.slope * x ∨ l.slope * x ≤ d ∧ d ≤ 0) :
    ∃ x₀, l.at x₀ = d + l.intercept ∧ (0 ≤ x₀ ∧ x₀ ≤ x ∨ x ≤ x₀ ∧ x₀ ≤ 0) := by
  have hx₀ : l.slope * (d / l.slope) = d := mul_div_cancel₀ d hslope
  refine ⟨d / l.slope, by rw [Line.at, hx₀], ?_⟩
  generalize d / l.slope = x₀ at hx₀
  subst hx₀
  rw [← mul_zero l.slope] at h
  rcases lt_or_gt_of_ne hslope with hneg | hpos
  · simp only [mul_le_mul_left_of_neg hneg] at h
    rcases h with ⟨hzero, hend⟩ | ⟨hend, hzero⟩
    · exact .inr ⟨hend, hzero⟩
    · exact .inl ⟨hzero, hend⟩
  · simp only [mul_le_mul_iff_right₀ hpos] at h
    exact h

/-- Whether a line passes a point on the way from its anchor towards `x`, and away from the
anchor. -/
structure Leaves (l : Line ℚ) (x : ℚ) (q : Point ℚ) : Prop where
  towards : 0 ≤ q.x * x
  on : q.y = l.at q.x
  away : 1 ≤ |q.x| ∨ 1 ≤ |q.y - l.intercept|

/-- A line that reaches the height `y` of a level side between the anchor and an upright side
crosses the level side there. -/
theorem exists_leaves_level (hpin : w.Clears 1 ⟨0, l.intercept⟩)
    (hslope : close l.slope 0 = false) {x y : ℚ} (hx : x = w.xmin ∨ x = w.xmax)
    (hy : y = w.ymin ∨ y = w.ymax)
    (h : 0 ≤ y - l.intercept ∧ y - l.intercept ≤ l.slope * x ∨
      l.slope * x ≤ y - l.intercept ∧ y - l.intercept ≤ 0) :
    ∃ q ∈ w.crossed (.line l), l.Leaves x q := by
  have hw := hpin.not_close_x
  obtain ⟨hleft, hright, hbottom, htop⟩ := hpin
  dsimp only at hleft hright hbottom htop
  obtain ⟨x₀, hx₀, hbetween⟩ := exists_at_of_between (ne_of_not_close hslope) h
  rw [sub_add_cancel] at hx₀
  have hin : w.xmin ≤ x₀ ∧ x₀ ≤ w.xmax := by
    rcases hx with rfl | rfl <;> rcases hbetween with ⟨h₁, h₂⟩ | ⟨h₁, h₂⟩ <;>
      constructor <;> linarith
  refine ⟨⟨x₀, y⟩, mem_crossed_level hw hslope hy hx₀ hin.1 hin.2, ?_, hx₀.symm, .inr ?_⟩
  · rcases hbetween with ⟨h₁, h₂⟩ | ⟨h₁, h₂⟩
    · exact mul_nonneg h₁ (h₁.trans h₂)
    · exact mul_nonneg_of_nonpos_of_nonpos h₂ (h₁.trans h₂)
  · rw [le_abs]
    rcases hy with rfl | rfl
    · right
      linarith
    · left
      linarith

/-- A line that is not taken to be level crosses a side in the direction of each upright side: the
bottom or the top if it gets below or above the window, and else the upright side itself. -/
theorem exists_leaves (hpin : w.Clears 1 ⟨0, l.intercept⟩) (hslope : close l.slope 0 = false)
    {x : ℚ} (hx : x = w.xmin ∨ x = w.xmax) : ∃ q ∈ w.crossed (.line l), l.Leaves x q := by
  have hbottom := hpin.bottom
  have htop := hpin.top
  dsimp only at hbottom htop
  by_cases hlow : l.at x < w.ymin
  · rw [Line.at] at hlow
    exact exists_leaves_level hpin hslope hx (.inl rfl) (.inr ⟨by linarith, by linarith⟩)
  · by_cases hhigh : w.ymax < l.at x
    · rw [Line.at] at hhigh
      exact exists_leaves_level hpin hslope hx (.inr rfl) (.inl ⟨by linarith, by linarith⟩)
    · have hbetween : between (l.at x) w.ymin w.ymax = true :=
        between_of_le (not_lt.1 hlow) (not_lt.1 hhigh)
      refine ⟨⟨x, l.at x⟩, mem_crossed_upright hx hbetween, mul_self_nonneg x, rfl, .inl ?_⟩
      rw [le_abs]
      rcases hx with rfl | rfl
      · right
        linarith [hpin.left]
      · left
        linarith [hpin.right]

/-- A line that is not taken to be level is shown. -/
theorem exists_chord_of_slope (hpin : w.Clears 1 ⟨0, l.intercept⟩)
    (hslope : close l.slope 0 = false) : ∃ a b, (Straight.line l).shapeIn w = .chord a b := by
  obtain ⟨p, hp, hleft, hpline, haway⟩ := exists_leaves hpin hslope (.inl rfl)
  obtain ⟨q, hq, hright, hqline, _⟩ := exists_leaves hpin hslope (.inr rfl)
  have htolerance := two_mul_tolerance_le
  have hpx : p.x ≤ 0 := by
    have hneg : w.xmin < 0 := by linarith [hpin.left]
    exact nonpos_of_mul_nonneg_left hleft hneg
  have hqx : 0 ≤ q.x := by
    have hpos : 0 < w.xmax := by linarith [hpin.right]
    exact nonneg_of_mul_nonneg_left hright hpos
  -- the crossings lie on two sides of the anchor, so they are as far apart as one is from it
  have hx : |p.x| ≤ |p.x - q.x| := by
    rw [abs_of_nonpos hpx, abs_of_nonpos (by linarith)]
    linarith
  refine Straight.exists_chord hp hq ?_
  rcases haway with h | h
  · exact .inl (htolerance.trans (h.trans hx))
  · right
    have hy : p.y - l.intercept = l.slope * p.x := by
      rw [hpline, Line.at]
      ring
    have hapart : p.y - q.y = l.slope * (p.x - q.x) := by
      rw [hpline, hqline, Line.at, Line.at]
      ring
    rw [hy, abs_mul] at h
    rw [hapart, abs_mul]
    exact htolerance.trans (h.trans (mul_le_mul_of_nonneg_left hx (abs_nonneg _)))

/-- A line that is taken to be level crosses only the upright sides. -/
theorem crossed_of_parallel (hpin : w.Clears 1 ⟨0, l.intercept⟩)
    (hslope : close l.slope 0 = true) :
    w.crossed (.line l) =
      (if between (l.at w.xmin) w.ymin w.ymax then [⟨w.xmin, l.at w.xmin⟩] else []) ++
        if between (l.at w.xmax) w.ymin w.ymax then [⟨w.xmax, l.at w.xmax⟩] else [] := by
  have hpos : (0 : ℚ) < tolerance := tolerance_pos
  have htolerance := two_mul_tolerance_le
  have hw := hpin.not_close_x
  obtain ⟨_, _, hbottom, htop⟩ := hpin
  dsimp only at hbottom htop
  have hlow : close l.intercept w.ymin = false := by
    rw [not_close_iff, le_abs]
    left
    linarith
  have hhigh : close l.intercept w.ymax = false := by
    rw [not_close_iff, le_abs]
    right
    linarith
  simp only [Window.crossed, Window.sides, List.flatMap_cons, List.flatMap_nil, List.append_nil,
    pins_crossing_parallel hw hslope hlow, pins_crossing_parallel hw hslope hhigh,
    pins_crossing_upright, List.nil_append]

theorem shapeIn_of_slips (hpin : w.Clears 1 ⟨0, l.intercept⟩) (h : l.slips w = true) :
    (Straight.line l).shapeIn w = .outside := by
  obtain ⟨hslope, hmiss⟩ := Bool.and_eq_true_iff.1 h
  refine Straight.shapeIn_eq_outside ?_
  rw [crossed_of_parallel hpin hslope]
  cases hleft : between (l.at w.xmin) w.ymin w.ymax with
  | false =>
    rw [if_neg nofun, List.nil_append]
    split <;> simp
  | true =>
    rw [hleft, Bool.true_and, Bool.not_eq_true'] at hmiss
    simp [hmiss]

theorem exists_chord_of_not_slips (hpin : w.Clears 1 ⟨0, l.intercept⟩) (h : l.slips w = false) :
    ∃ a b, (Straight.line l).shapeIn w = .chord a b := by
  cases hslope : close l.slope 0 with
  | false => exact exists_chord_of_slope hpin hslope
  | true =>
    rw [slips, hslope, Bool.true_and, Bool.not_eq_false', Bool.and_eq_true] at h
    refine Straight.exists_chord (mem_crossed_upright (.inl rfl) h.1)
      (mem_crossed_upright (.inr rfl) h.2) (.inl ?_)
    rw [le_abs]
    right
    linarith [hpin.left, hpin.right, two_mul_tolerance_le]

end Line

/-! ## Vertical lines -/

namespace Vertical

variable {v : Vertical ℚ} {w : Window ℚ}

/-- A vertical line crosses the bottom and the top of a window if it passes between the sides. -/
theorem mem_crossed_level (hw : close w.xmin w.xmax = false)
    (hbetween : between v.x w.xmin w.xmax = true) {y : ℚ} (hy : y = w.ymin ∨ y = w.ymax) :
    ⟨v.x, y⟩ ∈ w.crossed (.vertical v) := by
  refine Window.mem_crossed_of_mem (s := ⟨w.xmin, y, w.xmax, y⟩) ?_ ?_
  · rcases hy with rfl | rfl <;> simp [Window.sides]
  · have hcrossing : (Straight.vertical v).crossing ⟨w.xmin, y, w.xmax, y⟩ =
        (⟨v.x, 0 * v.x + y⟩ : Point ℚ).within ⟨w.xmin, y, w.xmax, y⟩ := by
      rw [Straight.crossing, Segment.support_level hw]
      rfl
    rw [hcrossing, zero_mul, zero_add, Point.within, hbetween, between_of_le le_rfl le_rfl]
    exact List.mem_singleton_self _

/-- A vertical line is shown in a window around its anchor. -/
theorem exists_chord (hpin : w.Clears 1 ⟨v.x, 0⟩) :
    ∃ a b, (Straight.vertical v).shapeIn w = .chord a b := by
  have hw := hpin.not_close_x
  obtain ⟨hleft, hright, hbottom, htop⟩ := hpin
  dsimp only at hleft hright hbottom htop
  have hbetween : between v.x w.xmin w.xmax = true :=
    between_of_le (by linarith) (by linarith)
  refine Straight.exists_chord (mem_crossed_level hw hbetween (.inl rfl))
    (mem_crossed_level hw hbetween (.inr rfl)) (.inr ?_)
  rw [le_abs]
  right
  linarith [two_mul_tolerance_le]

end Vertical

/-! ## Pictures -/

/-- Whether a window does not show a value although it is there: lines alone can slip. -/
def Value.slips : Value ℚ → Window ℚ → Bool
  | line l, w => l.slips w
  | _, _ => false

/-- The anchors of a line clear the default window by one. -/
theorem Straight.clears_pin {l : Straight ℚ} {values : List (Value ℚ)} (h : l.toValue ∈ values) :
    (Window.ofValues .default values).Clears 1 l.pin := by
  show (Window.ofValues .default values).Clears (Settings.default : Settings ℚ).padding l.pin
  refine Window.clears_ofValues h ?_
  cases l with
  | line l => exact List.mem_cons_self
  | vertical v => exact List.mem_cons_self

/-- Of a value that slips the window of it and others shows nothing; any other value is drawn, and a
line as a chord. -/
theorem exists_shape_of_mem {values : List (Value ℚ)} {v : Value ℚ} (hv : v ∈ values)
    (hconcrete : v.IsConcrete) {w : Window ℚ} (hw : Window.ofValues .default values = w) :
    ∃ shape, v.shape w .warning = (.ok shape, []) ∧
      (v.slips w = true → shape = .outside) ∧
      (v.slips w = false →
        shape ≠ .outside ∧ ∀ l : Straight ℚ, v = l.toValue → ∃ a b, shape = .chord a b) := by
  subst hw
  obtain ⟨shape, hshape, hcases⟩ := Value.exists_shape hconcrete (.ofValues .default values)
  obtain ⟨other, hquiet, _⟩ := (DrawingDiscipline.quiet.run_shape hconcrete
    (.ofValues .default values)).exists_of_quiet
  rw [Traced.result, hquiet] at hshape
  obtain rfl : other = shape := Except.ok.inj hshape
  refine ⟨other, hquiet, ?_⟩
  have hshown (a b : Point ℚ) : Shape.chord a b ≠ .outside := by simp
  rcases hcases with ⟨l, rfl, rfl⟩ | ⟨hline, _, hinside⟩
  · have hpin := l.clears_pin hv
    cases l with
    | line l =>
      refine ⟨l.shapeIn_of_slips hpin, fun hslips => ?_⟩
      obtain ⟨a, b, hchord⟩ := l.exists_chord_of_not_slips hpin hslips
      rw [hchord]
      exact ⟨hshown a b, fun _ _ => ⟨a, b, rfl⟩⟩
    | vertical l =>
      obtain ⟨a, b, hchord⟩ := Vertical.exists_chord hpin
      rw [hchord]
      exact ⟨Bool.noConfusion, fun _ => ⟨hshown a b, fun _ _ => ⟨a, b, rfl⟩⟩⟩
  · refine ⟨fun hslips => ?_, fun _ => ⟨hinside, fun l hl => absurd hl (hline l)⟩⟩
    cases v with
    | line l => exact absurd rfl (hline (.line l))
    | _ => cases hslips

theorem exists_drawPoint (p : Point ℚ) : ∃ s, drawPoint p 4 .warning = (.ok s, []) := by
  obtain ⟨s, hs, _⟩ := (DrawingDiscipline.quiet.run_drawPoint (p := p) trivial).exists_of_quiet
  exact ⟨s, hs⟩

theorem exists_commands {shape : Shape ℚ} (h : shape ≠ .outside) (label : String) (style : Style) :
    ∃ commands, shape.commands label style 4 .warning = (.ok commands, []) := by
  have haccepts : DrawingDiscipline.quiet.Accepts label shape :=
    ⟨fun _ _ => trivial, fun houtside => absurd houtside h⟩
  obtain ⟨commands, hcommands, _⟩ :=
    (DrawingDiscipline.quiet.run_commands haccepts style).exists_of_quiet
  exact ⟨commands, hcommands⟩

theorem exists_commands_chord (a b : Point ℚ) (label : String) (style : Style) :
    ∃ start stop, (Shape.chord a b).commands label style 4 .warning =
      (.ok [strokeCommand style start stop, labelCommand "above left" stop label], []) := by
  obtain ⟨start, hstart⟩ := exists_drawPoint a
  obtain ⟨stop, hstop⟩ := exists_drawPoint b
  refine ⟨start, stop, ?_⟩
  rw [Shape.commands, Traced.bind_of_ok hstart, Traced.bind_of_ok hstop, Traced.bind_of_ok hstop]
  rfl

/-- The warnings about the entries that slip. -/
def slipping (entries : List (String × Value ℚ)) (w : Window ℚ) : List (Event ℚ) :=
  (entries.filter fun entry => entry.2.slips w).map fun entry => .skipped entry.1

/-- The commands that are drawn for an entry: a remark if it slips, and otherwise a stroke if it is
a line. -/
structure CommandsOf (entry : String × Value ℚ) (style : Style) (w : Window ℚ)
    (commands : List String) : Prop where
  drawn : (drawValue entry.1 entry.2 style w 4).result = .ok commands
  remark : entry.2.slips w = true → commands = ["% " ++ entry.1 ++ ": outside viewport"]
  stroke : entry.2.slips w = false → ∀ l : Straight ℚ, entry.2 = l.toValue → ∃ start stop,
    commands = [strokeCommand style start stop, labelCommand "above left" stop entry.1]

theorem exists_drawValue {entry : String × Value ℚ} (hconcrete : entry.2.IsConcrete)
    {values : List (Value ℚ)} (hv : entry.2 ∈ values) {w : Window ℚ}
    (hw : Window.ofValues .default values = w) (style : Style) :
    ∃ commands, drawValue entry.1 entry.2 style w 4 .warning =
      (.ok commands, slipping [entry] w) ∧ CommandsOf entry style w commands := by
  obtain ⟨shape, hshape, houtside, hdrawn⟩ := exists_shape_of_mem hv hconcrete hw
  have hdraw {commands : List String}
      (hcommands : shape.commands entry.1 style 4 .warning = (.ok commands, slipping [entry] w)) :
      drawValue entry.1 entry.2 style w 4 .warning = (.ok commands, slipping [entry] w) := by
    rw [drawValue, Traced.call_warning, Traced.bind_of_ok hshape, hcommands]
    rfl
  cases hslips : entry.2.slips w with
  | true =>
    obtain rfl := houtside hslips
    have hwarning : slipping [entry] w = [.skipped entry.1] := by simp [slipping, hslips]
    have hremark : drawValue entry.1 entry.2 style w 4 .warning =
        (.ok ["% " ++ entry.1 ++ ": outside viewport"], slipping [entry] w) := by
      refine hdraw ?_
      rw [hwarning]
      rfl
    exact ⟨_, hremark, congrArg Prod.fst hremark, fun _ => rfl,
      fun hfalse => absurd (hslips.symm.trans hfalse) nofun⟩
  | false =>
    obtain ⟨hinside, hchord⟩ := hdrawn hslips
    have hwarning : slipping [entry] w = [] := by simp [slipping, hslips]
    obtain ⟨commands, hcommands⟩ := exists_commands hinside entry.1 style
    have hquiet := hdraw (hwarning ▸ hcommands)
    refine ⟨commands, hquiet, congrArg Prod.fst hquiet,
      fun htrue => absurd (hslips.symm.trans htrue) nofun, ?_⟩
    intro _ l hl
    obtain ⟨a, b, rfl⟩ := hchord l hl
    obtain ⟨start, stop, hstroke⟩ := exists_commands_chord a b entry.1 style
    exact ⟨start, stop, Except.ok.inj (congrArg Prod.fst (hcommands.symm.trans hstroke))⟩

/-- Entries are drawn one after another: their commands come in order, and so do the warnings. -/
theorem exists_drawValues (highlight : List String) {entries : List (String × Value ℚ)}
    (h : ∀ entry ∈ entries, entry.2.IsConcrete) {values : List (Value ℚ)} {w : Window ℚ}
    (hvalues : ∀ entry ∈ entries, entry.2 ∈ values) (hw : Window.ofValues .default values = w) :
    ∃ rows, drawValues highlight w 4 entries .warning =
        (.ok rows.flatten, slipping entries w) ∧
      List.Forall₂ (fun entry => CommandsOf entry (.ofLabel highlight entry.1) w) entries rows := by
  induction entries with
  | nil => exact ⟨[], rfl, .nil⟩
  | cons entry entries ih =>
    obtain ⟨rows, hothers, hrows⟩ := ih
      (fun entry hentry => h entry (List.mem_cons_of_mem _ hentry))
      fun entry hentry => hvalues entry (List.mem_cons_of_mem _ hentry)
    obtain ⟨commands, hcommands, hof⟩ := exists_drawValue (h entry List.mem_cons_self)
      (hvalues entry List.mem_cons_self) hw (.ofLabel highlight entry.1)
    have hsplit : slipping (entry :: entries) w = slipping [entry] w ++ slipping entries w := by
      rw [slipping, ← List.singleton_append, List.filter_append, List.map_append]
      rfl
    refine ⟨commands :: rows, ?_, .cons hof hrows⟩
    rw [drawValues, Traced.bind_of_ok hcommands, Traced.bind_of_ok hothers, hsplit]
    show (_, slipping [entry] w ++ (slipping entries w ++ [])) = _
    rw [List.append_nil]
    rfl

/-- Whether a picture has the parts of its text: the scale, the corners of its window, and for each
entry a row of commands, in order. -/
structure PictureOf (entries : List (String × Value ℚ)) (highlight : List String) (w : Window ℚ)
    (scale low high : String) (rows : List (List String)) : Prop where
  drawnScale : (drawNumber (Settings.default : Settings ℚ).scale 4).result = .ok scale
  drawnLow : (drawPoint ⟨w.xmin, w.ymin⟩ 4).result = .ok low
  drawnHigh : (drawPoint ⟨w.xmax, w.ymax⟩ 4).result = .ok high
  drawnRows : List.Forall₂ (fun entry => CommandsOf entry (.ofLabel highlight entry.1) w) entries
    rows

/-- A picture under the default settings is made of the commands of its entries, and its warnings
are about the entries that slip. -/
theorem exists_picture (current : Settings ℚ) {entries : List (String × Value ℚ)}
    (hentries : ∀ entry ∈ entries, entry.2.IsConcrete) (highlight : List String)
    (settings? : Option (Settings ℚ)) (hdefault : settings?.getD current = .default)
    {w : Window ℚ} (hw : Window.ofValues .default (entries.map (·.2)) = w) :
    ∃ scale low high rows, picture current entries highlight settings? .warning =
        (.ok (pictureText scale low high rows.flatten), slipping entries w) ∧
      PictureOf entries highlight w scale low high rows := by
  have hvalues : ∀ v ∈ entries.map (·.2), v.IsConcrete := List.forall_mem_map.2 hentries
  have hmem : ∀ entry ∈ entries, entry.2 ∈ entries.map (·.2) :=
    fun entry hentry => List.mem_map_of_mem hentry
  have hdecimals : (Settings.default : Settings ℚ).decimals = 4 := rfl
  obtain ⟨_, hviewport, rfl⟩ :=
    (DrawingDiscipline.quiet.run_viewport hvalues .default).exists_of_quiet
  rw [hw] at hviewport
  obtain ⟨scale, hscale, _⟩ :=
    (DrawingDiscipline.quiet.run_drawNumber (Settings.default : Settings ℚ).scale).exists_of_quiet
  obtain ⟨low, hlow⟩ := exists_drawPoint ⟨w.xmin, w.ymin⟩
  obtain ⟨high, hhigh⟩ := exists_drawPoint ⟨w.xmax, w.ymax⟩
  obtain ⟨rows, hdraw, hrows⟩ := exists_drawValues highlight hentries hmem hw
  refine ⟨scale, low, high, rows, ?_, congrArg Prod.fst hscale, congrArg Prod.fst hlow,
    congrArg Prod.fst hhigh, hrows⟩
  rw [picture, Traced.call_warning, hdefault, hdecimals, Traced.bind_of_ok hviewport,
    Traced.bind_of_ok hscale, Traced.bind_of_ok hlow, Traced.bind_of_ok hhigh,
    Traced.bind_of_ok hdraw]
  exact Prod.ext rfl (List.append_nil _)

/-- Under the default settings a picture of sets warns about exactly the lines that slip, each in
the place of its entry. Its text has the commands of its entries, in order: a remark for a line that
slips, and a stroke for every other line. -/
theorem chords_iff_not_slips (current : Settings ℚ) (entries : List (String × Value ℚ))
    (hentries : ∀ entry ∈ entries, entry.2.IsConcrete) (highlight : List String)
    (settings? : Option (Settings ℚ)) (hdefault : settings?.getD current = .default) :
    ∃ w scale low high rows, (viewport (entries.map (·.2)) .default).result = .ok w ∧
      picture current entries highlight settings? .warning =
        (.ok (pictureText scale low high rows.flatten), slipping entries w) ∧
      PictureOf entries highlight w scale low high rows := by
  have hvalues : ∀ v ∈ entries.map (·.2), v.IsConcrete := List.forall_mem_map.2 hentries
  obtain ⟨scale, low, high, rows, htext, hof⟩ :=
    exists_picture current hentries highlight settings? hdefault rfl
  exact ⟨_, scale, low, high, rows, result_viewport hvalues .default, htext, hof⟩

/-- A line that rises slowly, and a point so far to the right that the line leaves the window
through the top. -/
def farEntries : List (String × Value ℚ) :=
  [("a", .line ⟨1 / 200000, 0⟩), ("b", .point ⟨1000000, 0⟩)]

theorem isConcrete_of_mem_farEntries : ∀ entry ∈ farEntries, entry.2.IsConcrete := by
  intro entry hentry
  simp only [farEntries, List.mem_cons, List.not_mem_nil, or_false] at hentry
  rcases hentry with rfl | rfl <;> nofun

theorem ofValues_farEntries :
    Window.ofValues .default (farEntries.map (·.2)) = (⟨-1, 1000001, -1, 1⟩ : Window ℚ) := by
  decide +kernel

theorem slipping_farEntries : slipping farEntries ⟨-1, 1000001, -1, 1⟩ = [.skipped "a"] := by
  have hfilter : farEntries.filter (fun entry => entry.2.slips ⟨-1, 1000001, -1, 1⟩) =
      [("a", .line ⟨1 / 200000, 0⟩)] := by decide +kernel
  rw [slipping, hfilter]
  rfl

theorem chords_iff_not_slips_far :
    (∀ entry ∈ farEntries, entry.2.IsConcrete) ∧
      ∃ w scale low high rows, (viewport (farEntries.map (·.2)) .default).result = .ok w ∧
        picture .default farEntries ["b"] none .warning =
          (.ok (pictureText scale low high rows.flatten), slipping farEntries w) ∧
        PictureOf farEntries ["b"] w scale low high rows :=
  ⟨isConcrete_of_mem_farEntries,
    chords_iff_not_slips .default farEntries isConcrete_of_mem_farEntries ["b"] none rfl⟩

/-- The line is inside the window at the axis and above it at the right end, so it crosses the top.
And yet it is not drawn. -/
theorem picture_skips_line :
    (∃ text, picture .default farEntries [] none .warning = (.ok text, [.skipped "a"])) ∧
      (picture .default farEntries [] none).result = .ok ("\n".intercalate
        ["\\begin\x7btikzpicture\x7d[scale=1]", "\\clip (-1,-1) rectangle (1000001,1);",
          "  % a: outside viewport", "  \\fill[aux] (1000000,0) circle (\\gsDotR);",
          "  \\node[ptlabel,above right] at (1000000,0) \x7bb\x7d;", "\\end\x7btikzpicture\x7d"]) ∧
      (⟨1 / 200000, 0⟩ : Line ℚ).at 0 < 1 ∧ 1 < (⟨1 / 200000, 0⟩ : Line ℚ).at 1000001 := by
  obtain ⟨_, _, _, _, htext, _⟩ :=
    exists_picture .default isConcrete_of_mem_farEntries [] none rfl ofValues_farEntries
  rw [slipping_farEntries] at htext
  refine ⟨⟨_, htext⟩, ?_, by decide +kernel, by decide +kernel⟩
  decide +kernel

end Planar
