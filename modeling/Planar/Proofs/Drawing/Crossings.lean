import Planar.Drawing.Clipping
import Planar.Proofs.Drawing.Discipline
import Planar.Proofs.Plane.Commutation

/-!
# Where a line crosses a window

The visible part of a line is found from its crossings with the sides of the window. Those close to
an earlier one are dropped, so each crossing is close to one that is kept, and two that are further
apart than twice the tolerance cannot both be close to the same.

* `Straight.crossing` — what a line has in common with a side;
* `Straight.covers_of_mem_crossing` — it lies within the side, up to the tolerance;
* `two_le_length_of_opposite` — two crossings are kept if none is close to both of two others;
* `exists_extremes?_eq` — the outermost crossings that are kept, and those between them;
* `Window.crossed`, `Straight.result_shape` — all crossings with the sides of a window, and the
  shape of the line in it;
* `Straight.exists_chord` — two crossings that are far apart make a chord;
* `Value.exists_shape` — the shape of any value.
-/

namespace Planar

open Scalar

/-! ## One side -/

theorem Value.result_clip {v : Value ℚ} (h : v.IsConcrete) (s : Segment ℚ) :
    (v.clip s).result = .ok ((v.clipped? s).getD .empty) := by
  cases v with
  | placeholder => exact absurd rfl h
  | _ => rfl

namespace Straight

/-- What a line has in common with a segment. -/
def crossing (l : Straight ℚ) (s : Segment ℚ) : Value ℚ :=
  ((s.support.meet l).clipped? s).getD .empty

theorem result_intersect (l : Straight ℚ) (s : Segment ℚ) :
    (l.toValue.intersect (.segment s)).result = .ok (l.crossing s) := by
  have hmeet : (l.toValue.intersect (.segment s)).result = (s.intersectStraight l).result := by
    cases l <;> rfl
  rw [hmeet, Segment.result_intersectStraight, Value.result_clip (Value.isConcrete_meet _ l)]
  rfl

/-- A line has nothing, a point within it, or all of a segment in common with the segment. -/
theorem crossing_cases (l : Straight ℚ) (s : Segment ℚ) :
    l.crossing s = .empty ∨ (∃ p, l.crossing s = .point p ∧ s.covers p = true) ∨
      l.crossing s = .segment s := by
  unfold crossing
  by_cases hsame : s.support.Same l
  · rw [meet_of_same hsame]
    right; right
    cases s.support <;> rfl
  · obtain ⟨_, hsmall⟩ := meet_of_not_same hsame
    cases hmeet : s.support.meet l with
    | empty => exact .inl rfl
    | point p =>
      cases hcovers : s.covers p with
      | true => exact .inr (.inl ⟨p, if_pos hcovers, hcovers⟩)
      | false => exact .inl (if_neg (ne_true_of_eq_false hcovers))
    | _ =>
      rw [hmeet] at hsmall
      exact hsmall.elim

theorem isConcrete_crossing (l : Straight ℚ) (s : Segment ℚ) : (l.crossing s).IsConcrete := by
  rcases l.crossing_cases s with h | ⟨p, h, _⟩ | h <;> rw [h] <;> nofun

/-- The points in which a line crosses a segment lie within the segment, up to the tolerance. -/
theorem covers_of_mem_crossing {l : Straight ℚ} {s : Segment ℚ} {p : Point ℚ}
    (h : p ∈ (l.crossing s).pins) : s.covers p = true := by
  have hends (a b : ℚ) : between a a b = true ∧ between b a b = true :=
    ⟨between_of_within ⟨min_le_left a b, le_max_left a b⟩,
      between_of_within ⟨min_le_right a b, le_max_right a b⟩⟩
  rcases l.crossing_cases s with heq | ⟨q, heq, hq⟩ | heq
  · rw [heq] at h
    cases h
  · rw [heq] at h
    obtain rfl := List.mem_singleton.1 h
    exact hq
  · rw [heq] at h
    have h : p ∈ [(⟨s.x₁, s.y₁⟩ : Point ℚ), ⟨s.x₂, s.y₂⟩] := h
    rcases List.mem_pair.1 h with rfl | rfl
    · exact Bool.and_eq_true_iff.2 ⟨(hends _ _).1, (hends _ _).1⟩
    · exact Bool.and_eq_true_iff.2 ⟨(hends _ _).2, (hends _ _).2⟩

end Straight

/-! ## Crossings that are kept -/

section Hits

variable {hits points : List (Point ℚ)} {p q : Point ℚ}

theorem mem_of_mem_addHit (h : q ∈ addHit hits p) : q ∈ hits ∨ q = p := by
  unfold addHit at h
  split at h
  · exact .inl h
  · rcases List.mem_append.1 h with h | h
    · exact .inl h
    · exact .inr (List.mem_singleton.1 h)

theorem subset_addHit : hits ⊆ addHit hits p := by
  unfold addHit
  split
  · exact fun _ h => h
  · exact fun _ h => List.mem_append_left _ h

theorem exists_close_addHit : ∃ q ∈ addHit hits p, pointClose p.x p.y q.x q.y = true := by
  unfold addHit
  split
  case isTrue h => exact List.any_eq_true.1 h
  case isFalse => exact ⟨p, by simp, by simp [pointClose]⟩

theorem subset_foldl_addHit : hits ⊆ points.foldl addHit hits := by
  induction points generalizing hits with
  | nil => exact fun _ h => h
  | cons p points ih => exact fun q h => ih (subset_addHit h)

/-- What is kept are crossings. -/
theorem mem_of_mem_foldl_addHit (h : q ∈ points.foldl addHit hits) : q ∈ hits ∨ q ∈ points := by
  induction points generalizing hits with
  | nil => exact .inl h
  | cons p points ih =>
    rcases ih h with h | h
    · rcases mem_of_mem_addHit h with h | rfl
      · exact .inl h
      · exact .inr List.mem_cons_self
    · exact .inr (List.mem_cons_of_mem _ h)

/-- Each crossing is close to one that is kept. -/
theorem exists_close_foldl_addHit (h : p ∈ points) :
    ∃ q ∈ points.foldl addHit hits, pointClose p.x p.y q.x q.y = true := by
  induction points generalizing hits with
  | nil => cases h
  | cons first points ih =>
    rcases List.mem_cons.1 h with rfl | h
    · obtain ⟨q, hq, hclose⟩ : ∃ q ∈ addHit hits p, _ := exists_close_addHit
      refine ⟨q, ?_, hclose⟩
      rw [List.foldl_cons]
      exact subset_foldl_addHit hq
    · exact ih h

/-- The number of points that are kept is at most that of the points. -/
theorem length_foldl_addHit_le :
    (points.foldl addHit hits).length ≤ hits.length + points.length := by
  induction points generalizing hits with
  | nil => exact le_rfl
  | cons p points ih =>
    have hstep : (addHit hits p).length ≤ hits.length + 1 := by
      unfold addHit
      split <;> simp
    have hrest : (points.foldl addHit (addHit hits p)).length ≤ _ := ih
    simp only [List.foldl_cons, List.length_cons]
    omega

/-- If no point is close to both of two points, then two are kept. -/
theorem two_le_length_of_opposite (hp : p ∈ points) (hq : q ∈ points)
    (h : ∀ k, k ∈ hits ∨ k ∈ points → pointClose p.x p.y k.x k.y = true →
      pointClose q.x q.y k.x k.y = false) : 2 ≤ (points.foldl addHit hits).length := by
  obtain ⟨p', hp', hclose⟩ : ∃ p' ∈ points.foldl addHit hits, _ := exists_close_foldl_addHit hp
  obtain ⟨q', hq', hclose'⟩ : ∃ q' ∈ points.foldl addHit hits, _ := exists_close_foldl_addHit hq
  have happart := h p' (mem_of_mem_foldl_addHit hp') hclose
  by_contra hfew
  obtain rfl : p' = q' := by
    generalize points.foldl addHit hits = kept at hp' hq' hfew
    match kept with
    | [] => cases hp'
    | [_] => exact (List.mem_singleton.1 hp').trans (List.mem_singleton.1 hq').symm
    | _ :: _ :: _ => simp at hfew
  exact absurd (hclose'.symm.trans happart) nofun

/-- Two points that are far apart cannot both be close to the same, so two are kept. -/
theorem two_le_length_foldl_addHit (hp : p ∈ points) (hq : q ∈ points)
    (hapart : 2 * tolerance ≤ |p.x - q.x| ∨ 2 * tolerance ≤ |p.y - q.y|) :
    2 ≤ (points.foldl addHit hits).length := by
  refine two_le_length_of_opposite hp hq fun k _ hclose => ?_
  obtain ⟨hx, hy⟩ := Bool.and_eq_true_iff.1 hclose
  rw [close_iff] at hx hy
  rw [not_pointClose_iff, abs_sub_comm q.x, abs_sub_comm q.y]
  rcases hapart with h | h
  · left
    linarith [abs_sub_le p.x k.x q.x]
  · right
    linarith [abs_sub_le p.y k.y q.y]

/-- No two of the points that are kept are close. -/
theorem pairwise_foldl_addHit
    (h : hits.Pairwise fun a b => pointClose a.x a.y b.x b.y = false) :
    (points.foldl addHit hits).Pairwise fun a b => pointClose a.x a.y b.x b.y = false := by
  induction points generalizing hits with
  | nil => exact h
  | cons p points ih =>
    refine ih ?_
    unfold addHit
    split
    case isTrue => exact h
    case isFalse hnone =>
      refine List.pairwise_append.2 ⟨h, List.pairwise_singleton .., fun a ha b hb => ?_⟩
      obtain rfl := List.mem_singleton.1 hb
      have hclose := List.any_eq_false.1 (Bool.not_eq_true _ ▸ hnone) a ha
      rw [pointClose_comm]
      exact Bool.not_eq_true _ ▸ hclose

end Hits

/-! ## Outermost crossings -/

theorem extremes?_eq_none {points : List (Point ℚ)} (h : points.length < 2) :
    extremes? points = none := if_pos h

theorem Point.before_iff {p q : Point ℚ} :
    p.before q = true ↔ p.x < q.x ∨ p.x = q.x ∧ p.y < q.y := by
  by_cases h : p.x = q.x
  · simp [before, Scalar.eq, h]
  · simp [before, Scalar.eq, h]

theorem Point.isOrder_before : Sorting.IsOrder (Point.before (α := ℚ)) where
  asymm {p q} h := by
    rw [← Bool.not_eq_true, before_iff]
    rw [before_iff] at h
    rintro (hlt | ⟨heq, hlt⟩) <;> rcases h with hlt' | ⟨heq', hlt'⟩ <;> linarith
  trans {p q r} h h' := by
    rw [← Bool.not_eq_true, before_iff] at h h' ⊢
    push Not at h h' ⊢
    refine ⟨h.1.trans h'.1, fun heq => ?_⟩
    have hq : q.x = p.x := le_antisymm (h'.1.trans heq.le) h.1
    exact (h.2 hq).trans (h'.2 (heq.trans hq.symm))

/-- The outermost of at least two points, with all that lie between them in order. -/
theorem exists_extremes?_eq {points : List (Point ℚ)} (h : 2 ≤ points.length) :
    ∃ a between b, extremes? points = some (a, b) ∧ (a :: (between ++ [b])).Perm points ∧
      Sorting.Increasing Point.before (a :: (between ++ [b])) := by
  obtain ⟨sorted, hsorted⟩ := Option.isSome_iff_exists.1 (Sorting.isSome_sort? Point.before points)
  have hperm := Sorting.perm_of_sort? _ hsorted
  have hincreasing := Sorting.pairwise_of_sort? Point.isOrder_before hsorted
  have hlength := hperm.length_eq
  match sorted with
  | [] =>
    rw [List.length_nil] at hlength
    omega
  | a :: more =>
    obtain rfl | ⟨between, b, rfl⟩ := more.eq_nil_or_concat'
    · rw [List.length_singleton] at hlength
      omega
    · refine ⟨a, between, b, ?_, hperm, hincreasing⟩
      have hlast : (a :: (between ++ [b])).getLast? = some b := by
        rw [← List.cons_append, List.getLast?_concat]
      rw [extremes?, if_neg (by omega), hsorted]
      simp [hlast]

theorem exists_extremes? {points : List (Point ℚ)} (h : 2 ≤ points.length) :
    ∃ a ∈ points, ∃ b ∈ points, extremes? points = some (a, b) := by
  obtain ⟨a, between, b, heq, hperm, _⟩ := exists_extremes?_eq h
  exact ⟨a, hperm.mem_iff.1 List.mem_cons_self, b, hperm.mem_iff.1 (by simp), heq⟩

/-! ## All sides -/

/-- The points in which a line crosses the sides of a window. -/
def Window.crossed (w : Window ℚ) (l : Straight ℚ) : List (Point ℚ) :=
  w.sides.flatMap fun s => (l.crossing s).pins

theorem Value.result_anchors {v : Value ℚ} (h : v.IsConcrete) : v.anchors.result = .ok v.pins := by
  cases v with
  | placeholder => exact absurd rfl h
  | _ => rfl

theorem result_crossings (l : Straight ℚ) (hits : List (Point ℚ)) (sides : List (Segment ℚ)) :
    (crossings l.toValue hits sides).result =
      .ok ((sides.flatMap fun s => (l.crossing s).pins).foldl addHit hits) := by
  induction sides generalizing hits with
  | nil => rfl
  | cons side sides ih =>
    rw [crossings, Traced.result_bind, Straight.result_intersect]
    show ((l.crossing side).anchors >>= fun points =>
      crossings l.toValue (points.foldl addHit hits) sides).result = _
    rw [Traced.result_bind, Value.result_anchors (l.isConcrete_crossing side)]
    show (crossings l.toValue ((l.crossing side).pins.foldl addHit hits) sides).result = _
    rw [ih, List.flatMap_cons, List.foldl_append]

/-- What a window shows of a line, from the crossings that are kept. -/
def Shape.ofHits (hits : List (Point ℚ)) : Shape ℚ :=
  match extremes? hits with
  | some (a, b) => .chord a b
  | none => .outside

namespace Straight

variable {l : Straight ℚ} {w : Window ℚ}

/-- What a window shows of a line. -/
def shapeIn (l : Straight ℚ) (w : Window ℚ) : Shape ℚ := .ofHits ((w.crossed l).foldl addHit [])

theorem result_clipToWindow (l : Straight ℚ) (w : Window ℚ) :
    (clipToWindow l.toValue w).result = .ok (extremes? ((w.crossed l).foldl addHit [])) := by
  rw [clipToWindow, Traced.result_call, Traced.result_bind]
  show (crossings l.toValue [] w.sides >>= fun hits => pure (extremes? hits)).result = _
  rw [Traced.result_bind, result_crossings]
  rfl

theorem result_shape (l : Straight ℚ) (w : Window ℚ) :
    (l.toValue.shape w).result = .ok (l.shapeIn w) := by
  have hclip := l.result_clipToWindow w
  unfold shapeIn Shape.ofHits
  generalize extremes? ((w.crossed l).foldl addHit []) = ends? at hclip
  cases l with
  | _ =>
    simp only [toValue, Value.shape] at hclip ⊢
    rw [Traced.result_bind, hclip]
    cases ends? <;> rfl

/-- The ends of what a window shows of a line are crossings. -/
theorem mem_crossed_of_mem_shapeIn {p : Point ℚ} (h : p ∈ (l.shapeIn w).points) :
    p ∈ w.crossed l := by
  rw [shapeIn] at h
  have hkept : p ∈ (w.crossed l).foldl addHit [] := by
    generalize (w.crossed l).foldl addHit [] = hits at h
    rcases Nat.lt_or_ge hits.length 2 with hfew | hmany
    · rw [Shape.ofHits, extremes?_eq_none hfew] at h
      cases h
    · obtain ⟨a, ha, b, hb, heq⟩ := exists_extremes? hmany
      rw [Shape.ofHits, heq] at h
      rcases List.mem_pair.1 h with rfl | rfl
      · exact ha
      · exact hb
  exact (mem_of_mem_foldl_addHit hkept).resolve_left List.not_mem_nil

/-- A line that crosses the sides of a window in two points that are far apart is shown. -/
theorem exists_chord {p q : Point ℚ} (hp : p ∈ w.crossed l) (hq : q ∈ w.crossed l)
    (hapart : 2 * tolerance ≤ |p.x - q.x| ∨ 2 * tolerance ≤ |p.y - q.y|) :
    ∃ a b, l.shapeIn w = .chord a b := by
  obtain ⟨a, _, b, _, heq⟩ := exists_extremes? (two_le_length_foldl_addHit hp hq hapart)
  exact ⟨a, b, by rw [shapeIn, Shape.ofHits, heq]⟩

/-- A line that crosses the sides of a window in at most one point is not shown. -/
theorem shapeIn_eq_outside (h : (w.crossed l).length < 2) : l.shapeIn w = .outside := by
  have hle : ((w.crossed l).foldl addHit []).length ≤ _ := length_foldl_addHit_le
  rw [List.length_nil, Nat.zero_add] at hle
  rw [shapeIn, Shape.ofHits, extremes?_eq_none (hle.trans_lt h)]

end Straight

/-! ## All kinds of value -/

/-- A value is a line, of which the window shows a part or nothing, or it is drawn by its
anchors. -/
theorem Value.exists_shape {v : Value ℚ} (h : v.IsConcrete) (w : Window ℚ) :
    ∃ shape, (v.shape w).result = .ok shape ∧
      ((∃ l : Straight ℚ, v = l.toValue ∧ shape = l.shapeIn w) ∨
        ((∀ l : Straight ℚ, v ≠ l.toValue) ∧ shape.points = v.pins ∧ shape ≠ .outside)) := by
  cases v with
  | empty => exact ⟨.nothing, rfl, .inr ⟨fun l => by cases l <;> nofun, rfl, nofun⟩⟩
  | point p => exact ⟨.dot p, rfl, .inr ⟨fun l => by cases l <;> nofun, rfl, nofun⟩⟩
  | segment s => exact ⟨.stroke _ _, rfl, .inr ⟨fun l => by cases l <;> nofun, rfl, nofun⟩⟩
  | line l => exact ⟨_, Straight.result_shape (.line l) w, .inl ⟨.line l, rfl, rfl⟩⟩
  | vertical l => exact ⟨_, Straight.result_shape (.vertical l) w, .inl ⟨.vertical l, rfl, rfl⟩⟩
  | placeholder => exact absurd rfl h

end Planar
