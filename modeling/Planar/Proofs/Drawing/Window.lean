import Planar.Proofs.Drawing.Discipline
import Planar.Proofs.Plane.Tolerance

/-!
# Windows over the rationals

The window of some values is the bounding box of their anchors, widened by the padding and to a
least size. So every anchor clears the sides of the window by the padding.

* `Window.Clears` — a point keeps a distance from the sides of a window;
* `stretch_fst_le`, `le_stretch_snd` — stretching an interval takes nothing away;
* `Window.clears_ofValues` — the anchors of values clear the sides of their window;
* `exists_drawnNumber`, `result_viewport` — numbers can be written, and windows found.
-/

namespace Planar

open Scalar

namespace Scalar

variable {x first : ℚ} {more : List ℚ}

theorem isNumber_rat (a : ℚ) : isNumber a = true := decide_eq_true rfl

theorem least_eq (a b : ℚ) : least a b = min a b := by
  rw [least, isNumber_rat, isNumber_rat]
  rcases lt_or_ge b a with h | h
  · rw [min_eq_right h.le]
    simp [h]
  · rw [min_eq_left h]
    simp [h]

theorem greatest_eq (a b : ℚ) : greatest a b = max a b := by
  rw [greatest, isNumber_rat, isNumber_rat]
  rcases lt_or_ge a b with h | h
  · rw [max_eq_right h.le]
    simp [h]
  · rw [max_eq_left h]
    simp [h]

/-- The least of some numbers is at most each of them. -/
theorem foldl_least_le (h : x ∈ first :: more) : more.foldl least first ≤ x := by
  induction more generalizing first x with
  | nil => exact (List.mem_singleton.1 h).ge
  | cons second more ih =>
    rw [List.foldl_cons, least_eq]
    rcases List.mem_cons.1 h with rfl | h
    · exact (ih List.mem_cons_self).trans (min_le_left _ _)
    · rcases List.mem_cons.1 h with rfl | h
      · exact (ih List.mem_cons_self).trans (min_le_right _ _)
      · exact ih (List.mem_cons_of_mem _ h)

/-- The greatest of some numbers is at least each of them. -/
theorem le_foldl_greatest (h : x ∈ first :: more) : x ≤ more.foldl greatest first := by
  induction more generalizing first x with
  | nil => exact (List.mem_singleton.1 h).le
  | cons second more ih =>
    rw [List.foldl_cons, greatest_eq]
    rcases List.mem_cons.1 h with rfl | h
    · exact (le_max_left _ _).trans (ih List.mem_cons_self)
    · rcases List.mem_cons.1 h with rfl | h
      · exact (le_max_right _ _).trans (ih List.mem_cons_self)
      · exact ih (List.mem_cons_of_mem _ h)

end Scalar

/-! ## Stretched intervals -/

section Stretch

variable (padding minExtent low high : ℚ)

theorem stretch_fst_le : (stretch padding minExtent low high).1 ≤ low - padding := by
  have hreach := le_max_left (1 / 2 * (high + padding - (low - padding))) (1 / 2 * minExtent)
  show 1 / 2 * (low - padding + (high + padding)) -
    greatest (1 / 2 * (high + padding - (low - padding))) (1 / 2 * minExtent) ≤ low - padding
  rw [greatest_eq]
  linarith

theorem le_stretch_snd : high + padding ≤ (stretch padding minExtent low high).2 := by
  have hreach := le_max_left (1 / 2 * (high + padding - (low - padding))) (1 / 2 * minExtent)
  show high + padding ≤ 1 / 2 * (low - padding + (high + padding)) +
    greatest (1 / 2 * (high + padding - (low - padding))) (1 / 2 * minExtent)
  rw [greatest_eq]
  linarith

end Stretch

/-! ## Points in windows -/

/-- Whether a point keeps the distance `margin` from each side of a window; a negative margin allows
it to be so far outside. -/
structure Window.Clears (w : Window ℚ) (margin : ℚ) (p : Point ℚ) : Prop where
  left : w.xmin + margin ≤ p.x
  right : p.x ≤ w.xmax - margin
  bottom : w.ymin + margin ≤ p.y
  top : p.y ≤ w.ymax - margin

namespace Window

variable {w : Window ℚ} {settings : Settings ℚ} {p : Point ℚ}

theorem Clears.mono {margin margin' : ℚ} (h : w.Clears margin p) (hle : margin' ≤ margin) :
    w.Clears margin' p := by
  obtain ⟨hleft, hright, hbottom, htop⟩ := h
  constructor <;> linarith

theorem clears_around {first : Point ℚ} {more : List (Point ℚ)} (h : p ∈ first :: more) :
    (around settings first more).Clears settings.padding p := by
  have hx : p.x ∈ first.x :: more.map Point.x := List.mem_map_of_mem h
  have hy : p.y ∈ first.y :: more.map Point.y := List.mem_map_of_mem h
  constructor
  · have hlow := stretch_fst_le settings.padding settings.minExtent
      ((more.map Point.x).foldl least first.x) ((more.map Point.x).foldl greatest first.x)
    show (stretch _ _ _ _).1 + _ ≤ p.x
    linarith [foldl_least_le hx]
  · have hhigh := le_stretch_snd settings.padding settings.minExtent
      ((more.map Point.x).foldl least first.x) ((more.map Point.x).foldl greatest first.x)
    show p.x ≤ (stretch _ _ _ _).2 - _
    linarith [le_foldl_greatest hx]
  · have hlow := stretch_fst_le settings.padding settings.minExtent
      ((more.map Point.y).foldl least first.y) ((more.map Point.y).foldl greatest first.y)
    show (stretch _ _ _ _).1 + _ ≤ p.y
    linarith [foldl_least_le hy]
  · have hhigh := le_stretch_snd settings.padding settings.minExtent
      ((more.map Point.y).foldl least first.y) ((more.map Point.y).foldl greatest first.y)
    show p.y ≤ (stretch _ _ _ _).2 - _
    linarith [le_foldl_greatest hy]

/-- Every anchor of some values clears the sides of their window by the padding. -/
theorem clears_ofValues {values : List (Value ℚ)} {v : Value ℚ} (hv : v ∈ values)
    (hp : p ∈ v.pins) : (ofValues settings values).Clears settings.padding p := by
  have hmem : p ∈ values.flatMap Value.pins := List.mem_flatMap.2 ⟨v, hv, hp⟩
  rw [ofValues]
  cases hanchors : values.flatMap Value.pins with
  | nil =>
    rw [hanchors] at hmem
    cases hmem
  | cons first more =>
    rw [hanchors] at hmem
    exact clears_around hmem

end Window

/-! ## Drawing -/

/-- Every rational can be written with the default number of places. -/
theorem exists_drawnNumber (x : ℚ) : ∃ s, drawnNumber x 4 = .ok s := ⟨_, rfl⟩

/-- Drawings with the default number of places that neither fail nor warn. -/
def DrawingDiscipline.quiet : DrawingDiscipline ℚ 4 :=
  .confined (fun _ => False) (fun _ => False) fun x fault h => by
    obtain ⟨s, hs⟩ := exists_drawnNumber x
    rw [hs] at h
    cases h

theorem result_viewport {values : List (Value ℚ)} (h : ∀ v ∈ values, v.IsConcrete)
    (settings : Settings ℚ) :
    (viewport values settings).result = .ok (.ofValues settings values) := by
  obtain ⟨_, hviewport, rfl⟩ := (DrawingDiscipline.quiet.run_viewport h settings).exists_of_quiet
  rw [Traced.result, hviewport]

end Planar
