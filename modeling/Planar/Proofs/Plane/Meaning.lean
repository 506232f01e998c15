import Planar.Expr.Scope
import Planar.Proofs.Plane.Decisions
import Planar.Proofs.Plane.Sets

/-!
# Evaluation as a calculus of sets

An expression means a set of points: an intersection is an intersection of sets, a shift is a
translation, and a binding binds a set. Over the rationals evaluation computes that set, provided
that no test which it decides depends on the tolerance.

* `Expr.meaning` — the set that an expression means;
* `Test.Sharp` — the tolerance does not matter to a test;
* `Decided.Gives` — what a run yields if all its tests are sharp;
* `Decided.gives_intersect`, `Decided.gives_eval` — the steps of evaluation as operations on sets;
* `points_evaluate` — the value of a closed expression is the set that it means.
-/

namespace Planar

/-- The set that an expression means when its free names mean the sets of `sets`. -/
def Expr.meaning (sets : String → Set (Point ℚ)) : Expr ℚ → Set (Point ℚ)
  | literal v _ => v.points
  | var name _ => sets name
  | intersect a b _ => a.meaning sets ∩ b.meaning sets
  | bind name a b _ => b.meaning (Function.update sets name (a.meaning sets))
  | shift dx dy a _ => translate dx dy (a.meaning sets)
  | placeholder => ∅

/-! ## Sharp tests -/

namespace Test

/-- Whether the answer to a test would be the same without the tolerance, with a margin: close
coordinates are equal, and one that is not within an interval is not within the widened one. -/
def Sharp : Test ℚ → Prop
  | close u v => u = v ∨ Scalar.tolerance ≤ |u - v|
  | between v a b =>
    Within v a b ∨ v < min a b - Scalar.tolerance ∨ max a b + Scalar.tolerance < v

instance : DecidablePred Sharp
  | close _ _ => inferInstanceAs (Decidable (_ ∨ _))
  | between _ _ _ => inferInstanceAs (Decidable ((_ ∧ _) ∨ _ ∨ _))

theorem Sharp.close_iff {u v : ℚ} (h : (close u v).Sharp) : Scalar.close u v = true ↔ u = v := by
  rw [Scalar.close_iff]
  constructor
  · intro hlt
    rcases h with heq | hle
    · exact heq
    · exact absurd hlt (not_lt.2 hle)
  · rintro rfl
    rw [sub_self, abs_zero]
    exact Scalar.tolerance_pos

theorem Sharp.between_iff {v a b : ℚ} (h : (between v a b).Sharp) :
    Scalar.between v a b = true ↔ Within v a b := by
  have hpos := Scalar.tolerance_pos
  rw [Scalar.between_iff]
  constructor
  · rintro ⟨hlow, hhigh⟩
    rcases h with hwithin | hlt | hlt
    · exact hwithin
    · exact absurd hlow (not_le.2 hlt)
    · exact absurd hhigh (not_le.2 hlt)
  · rintro ⟨hlow, hhigh⟩
    constructor <;> linarith

end Test

namespace Decided

variable {β γ : Type} {P : β → Prop} {Q : γ → Prop}

/-- Whether a run yields something of which `P` holds, provided that its tests are sharp. -/
def Gives (run : Decided ℚ β) (P : β → Prop) : Prop :=
  (∀ t ∈ run.tests, t.Sharp) → ∃ b, run.result = .ok b ∧ P b

theorem gives_pure {b : β} (h : P b) : (pure b : Decided ℚ β).Gives P := by
  intro _
  exact ⟨b, rfl, h⟩

theorem Gives.bind {run : Decided ℚ β} {next : β → Decided ℚ γ} (h : run.Gives P)
    (hnext : ∀ b, P b → (next b).Gives Q) : (run >>= next).Gives Q := by
  intro hsharp
  obtain ⟨result, tests⟩ := run
  cases result with
  | error fault =>
    obtain ⟨b, hb, _⟩ := h hsharp
    cases hb
  | ok b =>
    have hsharp' : ∀ t ∈ tests ++ (next b).tests, t.Sharp := hsharp
    obtain ⟨b', hb', hP⟩ := h fun t ht => hsharp' t (List.mem_append_left _ ht)
    cases hb'
    exact hnext b hP fun t ht => hsharp' t (List.mem_append_right _ ht)

theorem Gives.imp {run : Decided ℚ β} {P' : β → Prop} (h : run.Gives P) (himp : ∀ b, P b → P' b) :
    run.Gives P' := by
  intro hsharp
  obtain ⟨b, hb, hP⟩ := h hsharp
  exact ⟨b, hb, himp b hP⟩

theorem gives_ite {c : Prop} [Decidable c] {first second : Decided ℚ β}
    (hfirst : c → first.Gives P) (hsecond : ¬c → second.Gives P) :
    (if c then first else second).Gives P := by
  split
  case isTrue h => exact hfirst h
  case isFalse h => exact hsecond h

theorem gives_close (u v : ℚ) : (close u v).Gives fun b => b = true ↔ u = v := by
  intro hsharp
  exact ⟨_, rfl, (hsharp _ (List.mem_singleton_self _)).close_iff⟩

theorem gives_between (v a b : ℚ) : (between v a b).Gives fun r => r = true ↔ Within v a b := by
  intro hsharp
  exact ⟨_, rfl, (hsharp _ (List.mem_singleton_self _)).between_iff⟩

theorem gives_pointClose (x₁ y₁ x₂ y₂ : ℚ) :
    (pointClose x₁ y₁ x₂ y₂).Gives fun b => b = true ↔ x₁ = x₂ ∧ y₁ = y₂ := by
  refine (gives_close x₁ x₂).bind fun b hb => gives_ite ?_ ?_
  · intro hx
    refine (gives_close y₁ y₂).imp fun b' hb' => ?_
    rw [hb', and_iff_right (hb.1 hx)]
  · intro hx
    refine gives_pure (iff_of_false Bool.false_ne_true ?_)
    rintro ⟨heq, _⟩
    exact hx (hb.2 heq)

end Decided

/-! ## Ordered values -/

namespace Value

/-- Whether a value is a set whose segment, if it is one, has its ends in order. -/
def Ordered : Value ℚ → Prop
  | segment s => s.Ordered
  | placeholder => False
  | _ => True

/-- Whether a value is a bounded set whose segment, if it is one, has its ends in order. -/
def Bounded : Value ℚ → Prop
  | empty => True
  | point _ => True
  | segment s => s.Ordered
  | _ => False

/-- Whether a value is a part of a line that can be clipped: an ordered segment, a point or nothing
of it, or the line itself. -/
def LiesOn (l : Straight ℚ) : Value ℚ → Prop
  | empty => True
  | point p => p ∈ l.points
  | line k => .line k = l
  | vertical v => .vertical v = l
  | segment s => s.Ordered ∧ s.line = l
  | placeholder => False

theorem Bounded.ordered {v : Value ℚ} (h : v.Bounded) : v.Ordered := by
  cases v with
  | segment s => exact h
  | empty => trivial
  | point p => trivial
  | _ => cases h

theorem Bounded.liesOn {v : Value ℚ} {l : Straight ℚ} (h : v.Bounded) (hsub : v.points ⊆ l.points) :
    v.LiesOn l := by
  cases v with
  | empty => trivial
  | point p => exact hsub rfl
  | segment s =>
    exact ⟨h, s.line_eq_of_mem h (hsub s.first_mem_points) (hsub s.second_mem_points)⟩
  | _ => cases h

/-- What two lines share lies on both. -/
structure Meets (l k : Straight ℚ) (v : Value ℚ) : Prop where
  points : v.points = l.points ∩ k.points
  ordered : v.Ordered
  first : v.LiesOn l
  second : v.LiesOn k

theorem Bounded.meets {v : Value ℚ} {l k : Straight ℚ} (h : v.Bounded)
    (hpoints : v.points = l.points ∩ k.points) : Meets l k v where
  points := hpoints
  ordered := h.ordered
  first := h.liesOn (hpoints.trans_subset Set.inter_subset_left)
  second := h.liesOn (hpoints.trans_subset Set.inter_subset_right)

/-- A point that is kept exactly if it is in a set is what it shares with the set. -/
theorem keep_point {b : Bool} {p : Point ℚ} {S : Set (Point ℚ)} (hb : b = true ↔ p ∈ S) :
    (if b = true then point p else empty).points = {p} ∩ S ∧
      (if b = true then point p else empty).Bounded := by
  cases b with
  | true =>
    have hmem : p ∈ S := hb.1 rfl
    rw [if_pos rfl, Set.inter_eq_left.2 (Set.singleton_subset_iff.2 hmem)]
    exact ⟨rfl, trivial⟩
  | false =>
    have hmem : p ∉ S := mt hb.2 Bool.false_ne_true
    rw [if_neg Bool.false_ne_true, Set.singleton_inter_eq_empty.2 hmem]
    exact ⟨rfl, trivial⟩

end Value

/-! ## What the steps of an intersection give -/

namespace Decided

theorem gives_canonical {v : Value ℚ} (hv : v.IsConcrete) :
    (canonical v).Gives fun w => w.points = v.points ∧ w.Ordered := by
  cases v with
  | segment s =>
    refine (gives_pointClose s.x₁ s.y₁ s.x₂ s.y₂).bind fun b hb => gives_ite ?_ ?_
    · intro h
      obtain ⟨hx, hy⟩ := hb.1 h
      exact gives_pure ⟨(s.points_eq_singleton hx hy).symm, trivial⟩
    · intro hne
      refine (gives_close s.x₁ s.x₂).bind fun b' hb' => gives_ite ?_ ?_
      · intro h
        have hx := hb'.1 h
        refine gives_pure ?_
        by_cases hlt : s.y₁ < s.y₂
        · rw [if_pos (Scalar.lt_iff.2 hlt)]
          exact ⟨rfl, .inr ⟨hx, hlt⟩⟩
        · have hgt : s.y₂ < s.y₁ :=
            lt_of_le_of_ne (not_lt.1 hlt) fun hy => hne (hb.2 ⟨hx, hy.symm⟩)
          rw [if_neg (mt Scalar.lt_iff.1 hlt)]
          exact ⟨s.points_swap, .inr ⟨hx.symm, hgt⟩⟩
      · intro h
        have hx : s.x₁ ≠ s.x₂ := mt hb'.2 h
        refine gives_pure ?_
        by_cases hlt : s.x₂ < s.x₁
        · rw [if_pos (Scalar.lt_iff.2 hlt)]
          exact ⟨s.points_swap, .inl hlt⟩
        · rw [if_neg (mt Scalar.lt_iff.1 hlt)]
          exact ⟨rfl, .inl (lt_of_le_of_ne (not_lt.1 hlt) hx)⟩
  | placeholder => exact absurd rfl hv
  | _ => exact gives_pure ⟨rfl, trivial⟩

theorem gives_pointAtPoint (p q : Point ℚ) :
    (pointAtPoint p q).Gives fun v => v.points = {p} ∩ {q} ∧ v.Bounded := by
  refine (gives_pointClose p.x p.y q.x q.y).bind fun b hb => gives_pure (Value.keep_point ?_)
  obtain ⟨px, py⟩ := p
  obtain ⟨qx, qy⟩ := q
  rw [hb, Set.mem_singleton_iff, Point.mk.injEq]

theorem gives_pointAtStraight (p : Point ℚ) (l : Straight ℚ) :
    (pointAtStraight p l).Gives fun v => v.points = {p} ∩ l.points ∧ v.Bounded := by
  cases l with
  | line l => exact (gives_close _ _).bind fun b hb => gives_pure (Value.keep_point hb)
  | vertical v => exact (gives_close _ _).bind fun b hb => gives_pure (Value.keep_point hb)

/-- Two lines share nothing, a point or everything. -/
theorem gives_straightAtStraight (l k : Straight ℚ) :
    (straightAtStraight l k).Gives (Value.Meets l k) := by
  have empty_meets {l k : Straight ℚ} (h : l.points ∩ k.points = ∅) : Value.Meets l k .empty :=
    Value.Bounded.meets (v := .empty) trivial h.symm
  cases l with
  | line l =>
    cases k with
    | line k =>
      refine (gives_close l.slope k.slope).bind fun b hb => gives_ite ?_ ?_
      · intro h
        have hslope := hb.1 h
        refine (gives_close l.intercept k.intercept).bind fun b' hb' => gives_pure ?_
        cases b' with
        | true =>
          obtain ⟨m, c⟩ := l
          obtain ⟨m', c'⟩ := k
          obtain rfl : m = m' := hslope
          obtain rfl : c = c' := hb'.1 rfl
          exact ⟨(Set.inter_self _).symm, trivial, rfl, rfl⟩
        | false => exact empty_meets (Straight.inter_of_parallel hslope (mt hb'.2 Bool.false_ne_true))
      · intro h
        have hpoint := Straight.inter_of_slopes (mt hb.2 h)
        exact gives_pure (Value.Bounded.meets (v := .point _) trivial hpoint.symm)
    | vertical v =>
      have hpoint := Straight.inter_vertical l v
      exact gives_pure (Value.Bounded.meets (v := .point _) trivial hpoint.symm)
  | vertical v =>
    cases k with
    | line l =>
      have hpoint := Straight.inter_vertical l v
      rw [Set.inter_comm] at hpoint
      exact gives_pure (Value.Bounded.meets (v := .point _) trivial hpoint.symm)
    | vertical w =>
      refine (gives_close v.x w.x).bind fun b hb => gives_pure ?_
      cases b with
      | true =>
        obtain ⟨x⟩ := v
        obtain ⟨x'⟩ := w
        obtain rfl : x = x' := hb.1 rfl
        exact ⟨(Set.inter_self _).symm, trivial, rfl, rfl⟩
      | false => exact empty_meets (Straight.inter_of_ne (mt hb.2 Bool.false_ne_true))

theorem gives_lineThrough (s : Segment ℚ) : (lineThrough s).Gives fun l => l = s.line := by
  refine (gives_close s.x₁ s.x₂).bind fun b hb => gives_ite ?_ ?_
  · intro h
    exact gives_pure (Segment.line_of_eq (hb.1 h)).symm
  · intro h
    exact gives_pure (Segment.line_of_ne (mt hb.2 h)).symm

theorem gives_overlap {l : Straight ℚ} {s t : Segment ℚ} (h : Segment.Aligned l s t) :
    (overlap l.upright s t).Gives fun v => v.points = s.points ∩ t.points ∧ v.Bounded := by
  refine (gives_close _ _).bind fun b hb => gives_ite ?_ ?_
  · intro htouch
    exact gives_pure ⟨(h.inter_of_touch (hb.1 htouch)).symm, trivial⟩
  intro hne
  refine gives_ite ?_ ?_
  · intro hlt
    exact gives_pure ⟨(h.inter_of_apart (Scalar.lt_iff.1 hlt)).symm, trivial⟩
  intro hapart
  refine gives_ite ?_ ?_
  · intro hlt
    exact gives_pure ⟨(h.inter_of_inside (Scalar.lt_iff.1 hlt)).symm, h.second_ordered⟩
  · intro hle
    have hlt : t.start l.upright < s.stop l.upright :=
      lt_of_le_of_ne (not_lt.1 (mt Scalar.lt_iff.2 hapart)) fun heq => hne (hb.2 heq.symm)
    obtain ⟨hordered, hpoints⟩ := h.inter_of_part hlt (not_lt.1 (mt Scalar.lt_iff.2 hle))
    exact gives_pure ⟨hpoints.symm, hordered⟩

theorem gives_clip {s : Segment ℚ} {v : Value ℚ} (hs : s.Ordered) (hv : v.LiesOn s.line) :
    (clip s v).Gives fun w => w.points = v.points ∩ s.points ∧ w.Bounded := by
  have line_clipped : s.points = s.line.points ∩ s.points ∧ (Value.segment s).Bounded :=
    ⟨(Set.inter_eq_right.2 s.points_subset_line).symm, hs⟩
  cases v with
  | empty => exact gives_pure ⟨(Set.empty_inter _).symm, trivial⟩
  | point p =>
    refine (gives_between p.x s.x₁ s.x₂).bind fun b hb => gives_ite ?_ ?_
    · intro hx
      refine (gives_between p.y s.y₁ s.y₂).bind fun b' hb' => gives_pure (Value.keep_point ?_)
      constructor
      · intro hy
        exact Segment.mem_points_of_within hs hv (hb.1 hx) (hb'.1 hy)
      · intro hp
        exact hb'.2 (Segment.within_of_mem_points hp).2
    · intro hx
      have hp : p ∉ s.points := fun hp => hx (hb.2 (Segment.within_of_mem_points hp).1)
      exact gives_pure ⟨(Set.singleton_inter_eq_empty.2 hp).symm, trivial⟩
  | line k =>
    refine gives_pure ?_
    show s.points = (Straight.line k).points ∩ s.points ∧ _
    have hk : Straight.line k = s.line := hv
    rw [hk]
    exact line_clipped
  | vertical w =>
    refine gives_pure ?_
    show s.points = (Straight.vertical w).points ∩ s.points ∧ _
    have hw : Straight.vertical w = s.line := hv
    rw [hw]
    exact line_clipped
  | segment t =>
    obtain ⟨ht, hline⟩ := hv
    refine (gives_close t.x₁ t.x₂).bind fun b hb => ?_
    have hupright : b = s.line.upright := by
      rw [Bool.eq_iff_iff, hb, ← hline, Segment.upright_line]
    subst hupright
    refine gives_ite ?_ ?_
    · intro hlt
      exact gives_overlap ⟨ht, hs, hline, rfl, (Scalar.lt_iff.1 hlt).le⟩
    · intro hle
      have haligned : Segment.Aligned s.line s t :=
        ⟨hs, ht, rfl, hline, not_lt.1 (mt Scalar.lt_iff.2 hle)⟩
      rw [Set.inter_comm]
      exact gives_overlap haligned
  | placeholder => cases hv

theorem gives_atSegment {s : Segment ℚ} {S : Set (Point ℚ)}
    {meet : Straight ℚ → Decided ℚ (Value ℚ)} (hs : s.Ordered)
    (hmeet : (meet s.line).Gives fun v => v.points = S ∩ s.line.points ∧ v.LiesOn s.line) :
    (atSegment s meet).Gives fun w => w.points = S ∩ s.points ∧ w.Bounded := by
  refine (gives_lineThrough s).bind ?_
  rintro _ rfl
  refine hmeet.bind ?_
  rintro v ⟨hpoints, hv⟩
  refine (gives_clip hs hv).imp ?_
  rintro w ⟨hw, hbounded⟩
  rw [hw, hpoints, Set.inter_assoc, Set.inter_eq_right.2 s.points_subset_line]
  exact ⟨rfl, hbounded⟩

/-- A line meets a segment in a bounded part of both. -/
theorem gives_straightAtSegment {s : Segment ℚ} (hs : s.Ordered) (l : Straight ℚ) :
    (atSegment s fun k => straightAtStraight k l).Gives fun w =>
      w.points = l.points ∩ s.points ∧ w.Bounded := by
  refine gives_atSegment hs ((gives_straightAtStraight s.line l).imp fun v hv => ?_)
  rw [hv.points, Set.inter_comm]
  exact ⟨rfl, hv.first⟩

theorem gives_pointAtSegment {s : Segment ℚ} (hs : s.Ordered) (p : Point ℚ) :
    (atSegment s (pointAtStraight p)).Gives fun w =>
      w.points = {p} ∩ s.points ∧ w.Bounded := by
  refine gives_atSegment hs ((gives_pointAtStraight p s.line).imp ?_)
  rintro v ⟨hpoints, hv⟩
  exact ⟨hpoints, hv.liesOn (hpoints.trans_subset Set.inter_subset_right)⟩

theorem gives_segmentAtSegment {s t : Segment ℚ} (hs : s.Ordered) (ht : t.Ordered) :
    (atSegment s fun k => atSegment t fun m => straightAtStraight m k).Gives fun w =>
      w.points = t.points ∩ s.points ∧ w.Bounded := by
  refine gives_atSegment hs ((gives_straightAtSegment ht s.line).imp ?_)
  rintro v ⟨hpoints, hv⟩
  refine ⟨?_, hv.liesOn (hpoints.trans_subset Set.inter_subset_left)⟩
  rw [hpoints, Set.inter_comm]

/-- The intersection of two values is the intersection of their sets, and it can be intersected
again. -/
theorem gives_intersect {a b : Value ℚ} (ha : a.Ordered) (hb : b.Ordered) :
    (intersect a b).Gives fun v => v.points = a.points ∩ b.points ∧ v.Ordered := by
  have ordered {run : Decided ℚ (Value ℚ)} {S T : Set (Point ℚ)}
      (h : run.Gives fun w => w.points = S ∩ T ∧ w.Bounded) :
      run.Gives fun w => w.points = S ∩ T ∧ w.Ordered :=
    h.imp fun w hw => ⟨hw.1, hw.2.ordered⟩
  have swapped {run : Decided ℚ (Value ℚ)} {S T : Set (Point ℚ)}
      (h : run.Gives fun w => w.points = T ∩ S ∧ w.Bounded) :
      run.Gives fun w => w.points = S ∩ T ∧ w.Ordered := by
    rw [Set.inter_comm] at h
    exact ordered h
  have lines {l k : Straight ℚ} :
      (straightAtStraight l k).Gives fun w => w.points = k.points ∩ l.points ∧ w.Ordered :=
    (gives_straightAtStraight l k).imp fun w hw =>
      ⟨hw.points.trans (Set.inter_comm _ _), hw.ordered⟩
  cases a with
  | empty => exact gives_pure ⟨(Set.empty_inter _).symm, trivial⟩
  | placeholder => cases ha
  | point p =>
    cases b with
    | empty => exact gives_pure ⟨(Set.inter_empty _).symm, trivial⟩
    | placeholder => cases hb
    | point q => exact swapped (gives_pointAtPoint q p)
    | line l => exact ordered (gives_pointAtStraight p (.line l))
    | vertical v => exact ordered (gives_pointAtStraight p (.vertical v))
    | segment s => exact ordered (gives_pointAtSegment hb p)
  | line l =>
    cases b with
    | empty => exact gives_pure ⟨(Set.inter_empty _).symm, trivial⟩
    | placeholder => cases hb
    | point p => exact swapped (gives_pointAtStraight p (.line l))
    | line k => exact lines
    | vertical v =>
      exact (gives_straightAtStraight (.line l) (.vertical v)).imp fun w hw =>
        ⟨hw.points, hw.ordered⟩
    | segment s => exact ordered (gives_straightAtSegment hb (.line l))
  | vertical v =>
    cases b with
    | empty => exact gives_pure ⟨(Set.inter_empty _).symm, trivial⟩
    | placeholder => cases hb
    | point p => exact swapped (gives_pointAtStraight p (.vertical v))
    | line l => exact lines
    | vertical w => exact lines
    | segment s => exact ordered (gives_straightAtSegment hb (.vertical v))
  | segment s =>
    cases b with
    | empty => exact gives_pure ⟨(Set.inter_empty _).symm, trivial⟩
    | placeholder => cases hb
    | point p => exact swapped (gives_pointAtSegment ha p)
    | line l => exact swapped (gives_straightAtSegment ha (.line l))
    | vertical v => exact swapped (gives_straightAtSegment ha (.vertical v))
    | segment t => exact swapped (gives_segmentAtSegment ha hb)

theorem gives_shift {v : Value ℚ} (hv : v.Ordered) (dx dy : ℚ) :
    (shift v dx dy).Gives fun w => w.points = translate dx dy v.points ∧ w.Ordered := by
  cases v with
  | empty => exact gives_pure ⟨rfl, trivial⟩
  | point p =>
    refine gives_pure ⟨?_, trivial⟩
    ext q
    show q = ⟨p.x + dx, p.y + dy⟩ ↔ (⟨q.x - dx, q.y - dy⟩ : Point ℚ) = p
    obtain ⟨px, py⟩ := p
    obtain ⟨qx, qy⟩ := q
    rw [Point.mk.injEq, Point.mk.injEq, sub_eq_iff_eq_add, sub_eq_iff_eq_add]
  | line l =>
    refine gives_pure ⟨?_, trivial⟩
    ext q
    show q.y = l.slope * q.x + (l.intercept + dy - l.slope * dx) ↔
      q.y - dy = l.slope * (q.x - dx) + l.intercept
    constructor
    · intro h
      linarith
    · intro h
      linarith
  | vertical w =>
    refine gives_pure ⟨?_, trivial⟩
    ext q
    show q.x = w.x + dx ↔ q.x - dx = w.x
    rw [sub_eq_iff_eq_add]
  | segment s =>
    refine gives_pure ⟨?_, ?_⟩
    · ext q
      refine exists_congr fun t => and_congr_right fun _ => and_congr_right fun _ => ?_
      show q.x = s.x₁ + dx + t * (s.x₂ + dx - (s.x₁ + dx)) ∧
          q.y = s.y₁ + dy + t * (s.y₂ + dy - (s.y₁ + dy)) ↔
        q.x - dx = s.x₁ + t * (s.x₂ - s.x₁) ∧ q.y - dy = s.y₁ + t * (s.y₂ - s.y₁)
      rw [add_sub_add_right_eq_sub, add_sub_add_right_eq_sub, sub_eq_iff_eq_add, sub_eq_iff_eq_add,
        add_right_comm, add_right_comm s.y₁]
    · rcases hv with hlt | ⟨heq, hlt⟩
      · exact .inl (add_lt_add_left hlt dx)
      · exact .inr ⟨congrArg (· + dx) heq, add_lt_add_left hlt dy⟩
  | placeholder => cases hv

end Decided

/-! ## What evaluation gives -/

/-- Whether every literal of a tree is an ordered value and no node is missing. -/
def Expr.Ordered : Expr ℚ → Prop
  | literal v _ => v.Ordered
  | var _ _ => True
  | intersect a b _ => a.Ordered ∧ b.Ordered
  | bind _ a b _ => a.Ordered ∧ b.Ordered
  | shift _ _ a _ => a.Ordered
  | placeholder => False

/-- Whether some names have ordered values in an environment, and those of the given sets. -/
def Env.Holds (env : Env ℚ) (sets : String → Set (Point ℚ)) (names : List String) : Prop :=
  ∀ name ∈ names, ∃ v, env.get? name = some v ∧ v.points = sets name ∧ v.Ordered

theorem Env.Holds.bind {env : Env ℚ} {sets : String → Set (Point ℚ)} {name : String}
    {names : List String} {v : Value ℚ} (h : env.Holds sets (names.filter (· ≠ name)))
    (hv : v.Ordered) : (env.bind name v).Holds (Function.update sets name v.points) names := by
  intro x hx
  rw [Env.get?_bind]
  by_cases hname : x = name
  · subst hname
    rw [if_pos rfl, Function.update_self]
    exact ⟨v, rfl, rfl, hv⟩
  · rw [if_neg hname, Function.update_of_ne hname]
    exact h x (List.mem_filter.2 ⟨hx, decide_eq_true hname⟩)

namespace Decided

/-- Putting the literals of a tree in canonical form keeps its meaning. -/
theorem gives_normalize {e : Expr ℚ} (he : e.IsConcrete) :
    (normalize e).Gives fun n =>
      n.Ordered ∧ n.free = e.free ∧ ∀ sets, n.meaning sets = e.meaning sets := by
  induction e with
  | literal v span =>
    refine (gives_canonical he).bind ?_
    rintro w ⟨hpoints, hw⟩
    exact gives_pure ⟨hw, rfl, fun _ => hpoints⟩
  | var name span => exact gives_pure ⟨trivial, rfl, fun _ => rfl⟩
  | intersect a b span iha ihb =>
    refine (iha he.1).bind ?_
    rintro a' ⟨hordera, hfreea, hmeana⟩
    refine (ihb he.2).bind ?_
    rintro b' ⟨horderb, hfreeb, hmeanb⟩
    refine gives_pure ⟨⟨hordera, horderb⟩, ?_, ?_⟩
    · rw [Expr.free, hfreea, hfreeb, Expr.free]
    · intro sets
      rw [Expr.meaning, hmeana, hmeanb, Expr.meaning]
  | bind name a b span iha ihb =>
    refine (iha he.1).bind ?_
    rintro a' ⟨hordera, hfreea, hmeana⟩
    refine (ihb he.2).bind ?_
    rintro b' ⟨horderb, hfreeb, hmeanb⟩
    refine gives_pure ⟨⟨hordera, horderb⟩, ?_, ?_⟩
    · rw [Expr.free, hfreea, hfreeb, Expr.free]
    · intro sets
      rw [Expr.meaning, hmeana, hmeanb, Expr.meaning]
  | shift dx dy a span ih =>
    refine (ih he).bind ?_
    rintro a' ⟨horder, hfree, hmean⟩
    refine gives_pure ⟨horder, hfree, ?_⟩
    intro sets
    rw [Expr.meaning, hmean, Expr.meaning]
  | placeholder => cases he

/-- The value of a tree is the set that it means, in any environment that fits. -/
theorem gives_eval {e : Expr ℚ} {env : Env ℚ} {sets : String → Set (Point ℚ)} (he : e.Ordered)
    (henv : env.Holds sets e.free) :
    (eval env e).Gives fun v => v.points = e.meaning sets ∧ v.Ordered := by
  induction e generalizing env sets with
  | literal v span => exact gives_pure ⟨rfl, he⟩
  | var name span =>
    obtain ⟨v, hget, hpoints, hv⟩ := henv name (List.mem_singleton_self name)
    have hlookup : env.lookup name span = .ok v := by rw [Env.lookup, hget]
    rw [eval, hlookup]
    exact gives_pure ⟨hpoints, hv⟩
  | intersect a b span iha ihb =>
    refine (iha he.1 fun x hx => henv x (List.mem_append_left _ hx)).bind ?_
    rintro v ⟨hv, horderv⟩
    refine (ihb he.2 fun x hx => henv x (List.mem_append_right _ hx)).bind ?_
    rintro w ⟨hw, horderw⟩
    rw [Expr.meaning, ← hv, ← hw]
    exact gives_intersect horderv horderw
  | bind name a b span iha ihb =>
    refine (iha he.1 fun x hx => henv x (List.mem_append_left _ hx)).bind ?_
    rintro v ⟨hv, horderv⟩
    rw [Expr.meaning, ← hv]
    exact ihb he.2 (Env.Holds.bind (fun x hx => henv x (List.mem_append_right _ hx)) horderv)
  | shift dx dy a span ih =>
    refine (ih he henv).bind ?_
    rintro v ⟨hv, horderv⟩
    rw [Expr.meaning, ← hv]
    exact gives_shift horderv dx dy
  | placeholder => cases he

end Decided

/-- Over the rationals a closed expression has a value, and the value is the set that the
expression means, if the tolerance matters to none of the tests on the way. -/
theorem points_evaluate (e : Expr ℚ) (hconcrete : e.IsConcrete) (hclosed : e.free = [])
    (hsharp : ∀ t ∈ (Decided.evaluate e).tests, t.Sharp) (sets : String → Set (Point ℚ)) :
    ∃ v, e.evaluate.result = .ok v ∧ v.points = e.meaning sets := by
  have hgives : (Decided.evaluate e).Gives fun v => v.points = e.meaning sets := by
    refine (Decided.gives_normalize hconcrete).bind ?_
    rintro n ⟨horder, hfree, hmean⟩
    have henv : Env.empty.Holds sets n.free := by
      intro name hname
      rw [hfree, hclosed] at hname
      cases hname
    refine (Decided.gives_eval horder henv).imp ?_
    rintro v ⟨hpoints, _⟩
    rw [hpoints, hmean]
  obtain ⟨v, hv, hpoints⟩ := hgives hsharp
  rw [Decided.result_evaluate] at hv
  exact ⟨v, hv, hpoints⟩

theorem points_evaluate_overlap :
    ∃ v, (Expr.evaluate (α := ℚ) (.bind "a" (.literal (.segment ⟨4, 4, 0, 0⟩) none)
        (.intersect (.intersect (.var "a" none) (.shift 1 1 (.var "a" none) none) none)
          (.literal (.vertical ⟨2⟩) none) none) none)).result = .ok v ∧
      v.points = Expr.meaning (fun _ => ∅) (.bind "a" (.literal (.segment ⟨4, 4, 0, 0⟩) none)
        (.intersect (.intersect (.var "a" none) (.shift 1 1 (.var "a" none) none) none)
          (.literal (.vertical ⟨2⟩) none) none) none) := by
  refine points_evaluate _ ?_ (by decide) (by decide +kernel) _
  exact ⟨nofun, ⟨trivial, trivial⟩, nofun⟩

end Planar
