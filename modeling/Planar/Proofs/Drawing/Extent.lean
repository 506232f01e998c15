import Mathlib.Order.Bounds.Basic
import Planar.Proofs.Drawing.Window
import Planar.Proofs.Run.Transparency

/-!
# The window of values

Over the rationals the window of some values is told by the bounding box of their anchors. It has
the middle of the box, and on each axis the length of the box with the padding at both ends, or the
least extent where that is longer. So the order of the values does not matter, nor how often one is
there.

* `Value.HasAnchor`, `anchorsOf` — the points that pin one value to the plane, and several;
* `Window.Bounds`, `Window.bounds_box` — the bounding box of points;
* `Window.Surrounds`, `Window.surrounds_around` — what becomes of a box with the padding;
* `Window.IsExtent`, `Window.IsExtent.unique` — what the window of values has to be;
* `viewport_surrounds_anchors` — the run that finds a window finds this one.
-/

namespace Planar

open Scalar

/-! ## Anchors -/

/-- A point is its own anchor, a segment has its two ends, and a line has its crossings with the
axes. Of a vertical line only the one with the first axis counts, and the empty set has none. -/
inductive Value.HasAnchor : Value ℚ → Point ℚ → Prop
  | point (p : Point ℚ) : HasAnchor (.point p) p
  | start (s : Segment ℚ) : HasAnchor (.segment s) ⟨s.x₁, s.y₁⟩
  | stop (s : Segment ℚ) : HasAnchor (.segment s) ⟨s.x₂, s.y₂⟩
  | intercept (l : Line ℚ) : HasAnchor (.line l) ⟨0, l.intercept⟩
  | root (l : Line ℚ) : l.slope ≠ 0 → HasAnchor (.line l) ⟨-l.intercept / l.slope, 0⟩
  | foot (v : Vertical ℚ) : HasAnchor (.vertical v) ⟨v.x, 0⟩

/-- The anchors of some values. -/
def anchorsOf (values : List (Value ℚ)) : Set (Point ℚ) := {p | ∃ v ∈ values, v.HasAnchor p}

namespace Value

variable {v : Value ℚ} {p : Point ℚ}

theorem mem_pins_line_iff {l : Line ℚ} :
    p ∈ (line l).pins ↔ p = ⟨0, l.intercept⟩ ∨ l.slope ≠ 0 ∧ p = ⟨-l.intercept / l.slope, 0⟩ := by
  show p ∈ (⟨0, l.intercept⟩ :: if decide (l.slope = 0) then [] else [⟨-l.intercept / l.slope, 0⟩] :
    List (Point ℚ)) ↔ _
  by_cases h : l.slope = 0 <;> simp [h]

theorem mem_pins_iff : p ∈ v.pins ↔ v.HasAnchor p := by
  constructor
  · intro h
    cases v with
    | empty => cases h
    | placeholder => cases h
    | point q =>
      obtain rfl := List.mem_singleton.1 h
      exact .point p
    | vertical w =>
      obtain rfl := List.mem_singleton.1 h
      exact .foot w
    | line l =>
      obtain rfl | ⟨hslope, rfl⟩ := mem_pins_line_iff.1 h
      · exact .intercept l
      · exact .root l hslope
    | segment s =>
      rcases List.mem_cons.1 h with rfl | h
      · exact .start s
      · obtain rfl := List.mem_singleton.1 h
        exact .stop s
  · intro h
    cases h with
    | point => exact List.mem_singleton.2 rfl
    | foot => exact List.mem_singleton.2 rfl
    | start => exact List.mem_cons_self
    | stop => exact List.mem_cons_of_mem _ (List.mem_singleton.2 rfl)
    | intercept => exact mem_pins_line_iff.2 (.inl rfl)
    | root _ hslope => exact mem_pins_line_iff.2 (.inr ⟨hslope, rfl⟩)

/-- Only the empty set is without anchors. -/
theorem exists_hasAnchor (h : v.IsConcrete) (hempty : v ≠ empty) : ∃ p, v.HasAnchor p := by
  cases v with
  | empty => exact absurd rfl hempty
  | point p => exact ⟨_, .point p⟩
  | line l => exact ⟨_, .intercept l⟩
  | vertical w => exact ⟨_, .foot w⟩
  | segment s => exact ⟨_, .start s⟩
  | placeholder => exact absurd rfl h

end Value

theorem mem_flatMap_pins_iff {values : List (Value ℚ)} {p : Point ℚ} :
    p ∈ values.flatMap Value.pins ↔ p ∈ anchorsOf values := by
  rw [List.mem_flatMap]
  exact exists_congr fun v => and_congr_right fun _ => Value.mem_pins_iff

theorem anchorsOf_congr {values others : List (Value ℚ)} (h : ∀ v, v ∈ others ↔ v ∈ values) :
    anchorsOf others = anchorsOf values :=
  Set.ext fun _ => exists_congr fun v => and_congr_left fun _ => h v

/-! ## Bounding boxes -/

namespace Scalar

/-- Choosing one of two again and again leaves one of the numbers. -/
theorem foldl_mem {choose : ℚ → ℚ → ℚ} (h : ∀ a b, choose a b = a ∨ choose a b = b) (first : ℚ)
    (more : List ℚ) : more.foldl choose first ∈ first :: more := by
  induction more generalizing first with
  | nil => exact List.mem_singleton.2 rfl
  | cons second more ih =>
    rw [List.foldl_cons]
    rcases h first second with hchoice | hchoice
    · rw [hchoice]
      exact List.cons_subset_cons _ (List.subset_cons_self _ _) (ih first)
    · rw [hchoice]
      exact List.mem_cons_of_mem _ (ih second)

theorem foldl_least_mem (first : ℚ) (more : List ℚ) : more.foldl least first ∈ first :: more :=
  foldl_mem (fun a b => least_eq a b ▸ min_choice a b) first more

theorem foldl_greatest_mem (first : ℚ) (more : List ℚ) :
    more.foldl greatest first ∈ first :: more :=
  foldl_mem (fun a b => greatest_eq a b ▸ max_choice a b) first more

end Scalar

namespace Window

/-- Whether a window is the bounding box of some points. -/
structure Bounds (box : Window ℚ) (points : Set (Point ℚ)) : Prop where
  left : IsLeast (Point.x '' points) box.xmin
  right : IsGreatest (Point.x '' points) box.xmax
  bottom : IsLeast (Point.y '' points) box.ymin
  top : IsGreatest (Point.y '' points) box.ymax

theorem Bounds.unique {box box' : Window ℚ} {points : Set (Point ℚ)} (h : box.Bounds points)
    (h' : box'.Bounds points) : box = box' := by
  obtain ⟨hleft, hright, hbottom, htop⟩ := h
  have hxmin := hleft.unique h'.left
  have hxmax := hright.unique h'.right
  have hymin := hbottom.unique h'.bottom
  have hymax := htop.unique h'.top
  cases box
  cases box'
  simp_all

/-- The window from the least to the greatest coordinates of some points, the first given apart. -/
def box (first : Point ℚ) (more : List (Point ℚ)) : Window ℚ where
  xmin := (more.map Point.x).foldl least first.x
  xmax := (more.map Point.x).foldl greatest first.x
  ymin := (more.map Point.y).foldl least first.y
  ymax := (more.map Point.y).foldl greatest first.y

theorem bounds_box (first : Point ℚ) (more : List (Point ℚ)) :
    (box first more).Bounds {p | p ∈ first :: more} := by
  have hleast (axis : Point ℚ → ℚ) : IsLeast (axis '' {p | p ∈ first :: more})
      ((more.map axis).foldl least (axis first)) := by
    refine ⟨List.mem_map.1 (foldl_least_mem (axis first) (more.map axis)), ?_⟩
    rintro _ ⟨p, hp, rfl⟩
    exact foldl_least_le (List.mem_map_of_mem hp)
  have hgreatest (axis : Point ℚ → ℚ) : IsGreatest (axis '' {p | p ∈ first :: more})
      ((more.map axis).foldl greatest (axis first)) := by
    refine ⟨List.mem_map.1 (foldl_greatest_mem (axis first) (more.map axis)), ?_⟩
    rintro _ ⟨p, hp, rfl⟩
    exact le_foldl_greatest (List.mem_map_of_mem hp)
  exact ⟨hleast _, hgreatest _, hleast _, hgreatest _⟩

end Window

/-! ## Padding -/

section Stretch

variable (padding minExtent low high : ℚ)

theorem stretch_fst_add_snd :
    (stretch padding minExtent low high).1 + (stretch padding minExtent low high).2 =
      low + high := by
  show 1 / 2 * (low - padding + (high + padding)) - greatest _ _ +
    (1 / 2 * (low - padding + (high + padding)) + greatest _ _) = low + high
  ring

theorem stretch_snd_sub_fst :
    (stretch padding minExtent low high).2 - (stretch padding minExtent low high).1 =
      max (high - low + 2 * padding) minExtent := by
  show 1 / 2 * (low - padding + (high + padding)) +
      greatest (1 / 2 * (high + padding - (low - padding))) (1 / 2 * minExtent) -
    (1 / 2 * (low - padding + (high + padding)) -
      greatest (1 / 2 * (high + padding - (low - padding))) (1 / 2 * minExtent)) = _
  rw [greatest_eq, ← mul_max_of_nonneg _ _ (by norm_num : (0 : ℚ) ≤ 1 / 2)]
  ring_nf

end Stretch

namespace Window

variable {w w' box : Window ℚ} {settings : Settings ℚ}

/-- Whether a window has the middle of a box, and on each axis the length of the box with the padding
at both ends, or the least extent. -/
structure Surrounds (w : Window ℚ) (settings : Settings ℚ) (box : Window ℚ) : Prop where
  middle_x : (w.xmin + w.xmax) / 2 = (box.xmin + box.xmax) / 2
  middle_y : (w.ymin + w.ymax) / 2 = (box.ymin + box.ymax) / 2
  width : w.xmax - w.xmin = max (box.xmax - box.xmin + 2 * settings.padding) settings.minExtent
  height : w.ymax - w.ymin = max (box.ymax - box.ymin + 2 * settings.padding) settings.minExtent

namespace Surrounds

theorem unique (h : w.Surrounds settings box) (h' : w'.Surrounds settings box) : w = w' := by
  obtain ⟨hmiddle_x, hmiddle_y, hwidth, hheight⟩ := h
  obtain ⟨hmiddle_x', hmiddle_y', hwidth', hheight'⟩ := h'
  have hxmin : w.xmin = w'.xmin := by linarith
  have hxmax : w.xmax = w'.xmax := by linarith
  have hymin : w.ymin = w'.ymin := by linarith
  have hymax : w.ymax = w'.ymax := by linarith
  cases w
  cases w'
  simp_all

/-- The corners of the box clear the sides of the window by the padding. -/
theorem clears (h : w.Surrounds settings box) (hx : box.xmin ≤ box.xmax)
    (hy : box.ymin ≤ box.ymax) : w.Clears settings.padding ⟨box.xmin, box.ymin⟩ ∧
      w.Clears settings.padding ⟨box.xmax, box.ymax⟩ := by
  obtain ⟨hmiddle_x, hmiddle_y, hwidth, hheight⟩ := h
  have hwide := le_max_left (box.xmax - box.xmin + 2 * settings.padding) settings.minExtent
  have hhigh := le_max_left (box.ymax - box.ymin + 2 * settings.padding) settings.minExtent
  constructor <;> constructor <;> dsimp only <;> linarith

end Surrounds

theorem surrounds_around (settings : Settings ℚ) (first : Point ℚ) (more : List (Point ℚ)) :
    (around settings first more).Surrounds settings (Window.box first more) where
  middle_x := congrArg (· / 2) (stretch_fst_add_snd ..)
  middle_y := congrArg (· / 2) (stretch_fst_add_snd ..)
  width := stretch_snd_sub_fst ..
  height := stretch_snd_sub_fst ..

end Window

/-! ## Windows of values -/

/-- Whether a window is the one that some values have to get: the fallback if all are empty, and else
the one that surrounds the bounding box of their anchors, whose corners clear its sides. -/
structure Window.IsExtent (w : Window ℚ) (settings : Settings ℚ) (values : List (Value ℚ)) :
    Prop where
  fallback : (∀ v ∈ values, v = .empty) → w = settings.fallback
  surrounds : (∃ v ∈ values, v ≠ .empty) → ∃ box : Window ℚ, box.Bounds (anchorsOf values) ∧
    w.Surrounds settings box ∧ w.Clears settings.padding ⟨box.xmin, box.ymin⟩ ∧
      w.Clears settings.padding ⟨box.xmax, box.ymax⟩

namespace Window

variable {w w' : Window ℚ} {settings : Settings ℚ} {values others : List (Value ℚ)}

/-- Values that are the same but for their order and number have the same window. -/
theorem IsExtent.unique (h : w.IsExtent settings values) (h' : w'.IsExtent settings others)
    (hmem : ∀ v, v ∈ others ↔ v ∈ values) : w = w' := by
  by_cases hempty : ∀ v ∈ values, v = .empty
  · rw [h.fallback hempty, h'.fallback fun v hv => hempty v ((hmem v).1 hv)]
  · push Not at hempty
    obtain ⟨v, hv, hne⟩ := hempty
    obtain ⟨box, hbox, hsurrounds, -⟩ := h.surrounds ⟨v, hv, hne⟩
    obtain ⟨box', hbox', hsurrounds', -⟩ := h'.surrounds ⟨v, (hmem v).2 hv, hne⟩
    rw [anchorsOf_congr hmem] at hbox'
    obtain rfl := hbox.unique hbox'
    exact hsurrounds.unique hsurrounds'

theorem isExtent_ofValues (h : ∀ v ∈ values, v.IsConcrete) (settings : Settings ℚ) :
    (ofValues settings values).IsExtent settings values := by
  have hanchors : {p | p ∈ values.flatMap Value.pins} = anchorsOf values :=
    Set.ext fun _ => mem_flatMap_pins_iff
  rw [ofValues]
  cases hpins : values.flatMap Value.pins with
  | nil =>
    refine ⟨fun _ => rfl, ?_⟩
    rintro ⟨v, hv, hne⟩
    obtain ⟨p, hp⟩ := Value.exists_hasAnchor (h v hv) hne
    have hmem := mem_flatMap_pins_iff.2 ⟨v, hv, hp⟩
    rw [hpins] at hmem
    cases hmem
  | cons first more =>
    constructor
    · intro hempty
      have hmem : first ∈ values.flatMap Value.pins := hpins ▸ List.mem_cons_self
      obtain ⟨v, hv, hanchor⟩ := mem_flatMap_pins_iff.1 hmem
      rw [hempty v hv] at hanchor
      cases hanchor
    · intro _
      have hbounds := bounds_box first more
      have hsurrounds := surrounds_around settings first more
      have hx := hbounds.left.2 hbounds.right.1
      have hy := hbounds.bottom.2 hbounds.top.1
      rw [← hpins, hanchors] at hbounds
      exact ⟨box first more, hbounds, hsurrounds, hsurrounds.clears hx hy⟩

end Window

/-- The run that finds the window of some values finds the one that they have to get, at every level,
and the same one if the values are put in another order or repeated. -/
theorem viewport_surrounds_anchors (values : List (Value ℚ)) (h : ∀ v ∈ values, v.IsConcrete)
    (settings : Settings ℚ) :
    ∃ w : Window ℚ, w.IsExtent settings values ∧
      ∀ others : List (Value ℚ), (∀ v, v ∈ others ↔ v ∈ values) →
        ∀ level, (viewport others settings level).1 = .ok w := by
  refine ⟨.ofValues settings values, Window.isExtent_ofValues h settings, ?_⟩
  intro others hmem level
  have hothers : ∀ v ∈ others, v.IsConcrete := fun v hv => h v ((hmem v).1 hv)
  have hsteady := ((DrawingDiscipline.steady ℚ 4).run_viewport hothers settings).steady
  rw [hsteady.fst_eq level, result_viewport hothers settings]
  congr 1
  exact ((Window.isExtent_ofValues h settings).unique (Window.isExtent_ofValues hothers settings)
    hmem).symm

/-- A slanted line, a point on the first axis and the empty set. -/
def scattered : List (Value ℚ) := [.line ⟨2, 1⟩, .point ⟨3, 0⟩, .empty]

theorem viewport_surrounds_anchors_scattered :
    (∀ v ∈ scattered, v.IsConcrete) ∧
      Window.IsExtent ⟨-3 / 2, 4, -1, 2⟩ .default scattered ∧
      (∀ level, (viewport (.empty :: (scattered ++ scattered).reverse) .default level).1 =
        .ok ⟨-3 / 2, 4, -1, 2⟩) ∧
      ∀ level, (viewport [.empty, .empty] (Settings.default (α := ℚ)) level).1 =
        .ok ⟨-5, 5, -5, 5⟩ := by
  have hconcrete : ∀ v ∈ scattered, v.IsConcrete := by
    simp [scattered, Value.IsConcrete]
  obtain ⟨w, hextent, hwindow⟩ := viewport_surrounds_anchors scattered hconcrete .default
  have hruns : (viewport scattered .default .warning).1 = .ok ⟨-3 / 2, 4, -1, 2⟩ := by decide +kernel
  obtain rfl : w = ⟨-3 / 2, 4, -1, 2⟩ :=
    Except.ok.inj ((hwindow scattered (fun _ => .rfl) .warning).symm.trans hruns)
  refine ⟨hconcrete, hextent, fun level => ?_, fun level => ?_⟩
  · exact hwindow _ (by simp [scattered, or_comm, or_left_comm]) level
  · obtain ⟨w, hextent, hwindow⟩ :=
      viewport_surrounds_anchors [.empty] (by simp [Value.IsConcrete]) .default
    obtain rfl : w = ⟨-5, 5, -5, 5⟩ := hextent.fallback (by simp)
    exact hwindow _ (by simp) level

end Planar
