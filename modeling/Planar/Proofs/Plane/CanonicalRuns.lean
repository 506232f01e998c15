import Planar.Proofs.Plane.Commutation
import Planar.Proofs.Run.Levels
import Planar.Proofs.Run.Reports

/-!
# Canonical values in evaluations

Only literals are put in canonical form. What evaluation makes of them is canonical too, except
where two segments are clipped to each other that are vertical up to the tolerance. The part from
the start of one to the end of the other can lean back by more than the tolerance, and then it is
neither vertical nor does it run from left to right.

* `Segment.Overhangs` — how far such a segment leans back;
* `Segment.Entangled` — two segments that have such a part in common;
* `canonical_iff_not_entangled` — all values of an evaluation are canonical or lean back, and all
  are canonical exactly if no entangled segments are clipped;
* `evaluate_not_canonical` — such segments exist.
-/

namespace Planar

open Scalar

namespace Segment

/-- Whether a segment rises and leans back, by at least the tolerance in both directions but by less
than twice the tolerance in the horizontal one. -/
structure Overhangs (s : Segment ℚ) : Prop where
  back : tolerance ≤ s.x₁ - s.x₂
  near : s.x₁ - s.x₂ < 2 * tolerance
  rises : tolerance ≤ s.y₂ - s.y₁

/-- Whether the part from the start of the second segment to the end of the first rises and leans
back. -/
structure JoinsBack (first second : Segment ℚ) : Prop where
  back : tolerance ≤ second.x₁ - first.x₂
  rises : tolerance ≤ first.y₂ - second.y₁
  ends : first.y₂ ≤ second.y₂

/-- Whether two segments are vertical and join back, the one that starts first being the first. -/
def Entangled (t s : Segment ℚ) : Prop :=
  t.isVertical = true ∧ if t.y₁ < s.y₁ then t.JoinsBack s else s.JoinsBack t

variable {s t : Segment ℚ}

theorem isVertical_iff : s.isVertical = true ↔ |s.x₁ - s.x₂| < tolerance := Scalar.close_iff

/-- A segment that rises by the tolerance and does not lean back by it is canonical. -/
theorem isCanonical_of_rises (hrises : tolerance ≤ s.y₂ - s.y₁) (hback : s.x₁ - s.x₂ < tolerance) :
    s.IsCanonical := by
  have hpos : (0 : ℚ) < tolerance := tolerance_pos
  refine ⟨?_, fun _ => by linarith, ?_⟩
  · rw [pointClose, Bool.and_eq_false_iff, close_comm s.y₁, not_close_iff (a := s.y₂)]
    exact .inr (hrises.trans (le_abs_self _))
  · intro hvertical
    rcases le_abs.1 (not_close_iff.1 hvertical) with hle | hle
    · linarith
    · linarith

/-- A segment that runs forward by the tolerance is canonical. -/
theorem isCanonical_of_forward (hforward : tolerance ≤ s.x₂ - s.x₁) : s.IsCanonical := by
  have hpos : (0 : ℚ) < tolerance := tolerance_pos
  have hvertical : s.isVertical = false := by
    rw [isVertical, close_comm, not_close_iff]
    exact hforward.trans (le_abs_self _)
  refine ⟨?_, fun h => absurd (hvertical.symm.trans h) Bool.false_ne_true, fun _ => by linarith⟩
  rw [pointClose, show close s.x₁ s.x₂ = false from hvertical, Bool.false_and]

/-- A segment that leans back by the tolerance is not canonical. -/
theorem not_isCanonical_of_back (hback : tolerance ≤ s.x₁ - s.x₂) : ¬s.IsCanonical := by
  intro hcanonical
  have hpos : (0 : ℚ) < tolerance := tolerance_pos
  have hvertical : s.isVertical = false := not_close_iff.2 (hback.trans (le_abs_self _))
  have hlt := hcanonical.forward hvertical
  linarith

/-! ## The part that two segments share -/

/-- The two cases in which the overlap of two segments is a segment. -/
theorem overlap_eq_segment {upright : Bool} {first second r : Segment ℚ}
    (h : overlap upright first second = .segment r) :
    r = second ∨ r = join second first ∧
      tolerance ≤ first.stop upright - second.start upright ∧
        first.stop upright ≤ second.stop upright := by
  unfold overlap at h
  split at h
  · cases h
  · next hclose =>
    split at h
    · cases h
    · next hlt =>
      split at h
      · cases h
        exact .inl rfl
      · next hstop =>
        cases h
        rw [lt_iff, not_lt] at hlt hstop
        rw [Bool.not_eq_true, not_close_iff, abs_of_nonneg (sub_nonneg.2 hlt)] at hclose
        exact .inr ⟨rfl, hclose, hstop⟩

theorem JoinsBack.overlap_eq {first second : Segment ℚ} (h : first.JoinsBack second) :
    overlap true first second = .segment (join second first) := by
  have hpos : (0 : ℚ) < tolerance := tolerance_pos
  obtain ⟨_, hrises, hends⟩ := h
  have hclose : ¬close first.y₂ second.y₁ = true := by
    rw [Bool.not_eq_true, not_close_iff]
    exact hrises.trans (le_abs_self _)
  have hlt : ¬lt first.y₂ second.y₁ = true := by
    rw [lt_iff, not_lt]
    linarith
  have hstop : ¬lt second.y₂ first.y₂ = true := by
    rw [lt_iff, not_lt]
    exact hends
  show (if close first.y₂ second.y₁ = true then _ else if lt first.y₂ second.y₁ = true then _ else
    if lt second.y₂ first.y₂ = true then _ else _) = _
  rw [if_neg hclose, if_neg hlt, if_neg hstop]
  rfl

/-- Entangled segments have a part in common that leans back. -/
theorem Entangled.exists_common (h : t.Entangled s) :
    ∃ r, t.common s = .segment r ∧ tolerance ≤ r.x₁ - r.x₂ := by
  obtain ⟨hvertical, hjoins⟩ := h
  have hcommon : t.common s =
      if lt t.y₁ s.y₁ = true then overlap true t s else overlap true s t := by
    rw [common, hvertical]
    rfl
  rw [hcommon]
  split at hjoins
  case isTrue hlt =>
    rw [if_pos (lt_iff.2 hlt)]
    exact ⟨_, hjoins.overlap_eq, hjoins.back⟩
  case isFalse hle =>
    rw [if_neg (mt lt_iff.1 hle)]
    exact ⟨_, hjoins.overlap_eq, hjoins.back⟩

theorem isVertical_eq_of_agrees (h : t.support.Agrees s.support) : t.isVertical = s.isVertical := by
  unfold support at h
  cases ht : t.isVertical with
  | true =>
    cases hs : s.isVertical with
    | true => rfl
    | false =>
      rw [ht, hs] at h
      exact h.elim
  | false =>
    cases hs : s.isVertical with
    | true =>
      rw [ht, hs] at h
      exact h.elim
    | false => rfl

theorem close_of_agrees (h : t.support.Agrees s.support) (ht : t.isVertical = true) :
    close t.x₁ s.x₁ = true := by
  have hs := isVertical_eq_of_agrees h
  unfold support at h
  rw [← hs, ht] at h
  exact h

/-- The part from the start of one vertical segment to the end of another close to it. -/
theorem isCanonical_or_overhangs_join {first second : Segment ℚ}
    (hfirst : |first.x₁ - first.x₂| < tolerance) (hclose : |second.x₁ - first.x₁| < tolerance)
    (hrises : tolerance ≤ first.y₂ - second.y₁) (hends : first.y₂ ≤ second.y₂) :
    (join second first).IsCanonical ∨ (join second first).Overhangs ∧ first.JoinsBack second := by
  rcases lt_or_ge (second.x₁ - first.x₂) tolerance with hback | hback
  · exact .inl (isCanonical_of_rises hrises hback)
  · refine .inr ⟨⟨hback, ?_, hrises⟩, hback, hrises, hends⟩
    have h₁ := (abs_lt.1 hfirst).2
    have h₂ := (abs_lt.1 hclose).2
    show second.x₁ - first.x₂ < 2 * tolerance
    linarith

/-- A segment that two segments of agreeing lines have in common is one of them, or canonical, or it
leans back. -/
theorem common_eq_segment {r : Segment ℚ} (hagrees : t.support.Agrees s.support)
    (h : t.common s = .segment r) :
    r = t ∨ r = s ∨ r.IsCanonical ∨ r.Overhangs ∧ t.Entangled s := by
  have hvertical := isVertical_eq_of_agrees hagrees
  unfold common at h
  dsimp only at h
  cases ht : t.isVertical with
  | false =>
    -- clipping runs along x, and so does the order of the ends
    rw [ht] at h
    split at h
    · obtain rfl | ⟨rfl, hforward, _⟩ := overlap_eq_segment h
      · exact .inr (.inl rfl)
      · exact .inr (.inr (.inl (isCanonical_of_forward hforward)))
    · obtain rfl | ⟨rfl, hforward, _⟩ := overlap_eq_segment h
      · exact .inl rfl
      · exact .inr (.inr (.inl (isCanonical_of_forward hforward)))
  | true =>
    -- clipping runs along y, and the ends that it joins may lie on both sides of the line
    rw [ht] at h hvertical
    have hclose := Scalar.close_iff.1 (close_of_agrees hagrees ht)
    rw [eq_comm] at hvertical
    rw [isVertical_iff] at hvertical
    have hleans := isVertical_iff.1 ht
    split at h
    case isTrue hlt =>
      have hlt : t.y₁ < s.y₁ := lt_iff.1 hlt
      obtain rfl | ⟨rfl, hrises, hends⟩ := overlap_eq_segment h
      · exact .inr (.inl rfl)
      · rw [abs_sub_comm] at hclose
        obtain hcanonical | ⟨hover, hjoins⟩ :=
          isCanonical_or_overhangs_join hleans hclose hrises hends
        · exact .inr (.inr (.inl hcanonical))
        · refine .inr (.inr (.inr ⟨hover, ht, ?_⟩))
          rwa [if_pos hlt]
    case isFalse hle =>
      have hle : ¬t.y₁ < s.y₁ := mt lt_iff.2 hle
      obtain rfl | ⟨rfl, hrises, hends⟩ := overlap_eq_segment h
      · exact .inl rfl
      · obtain hcanonical | ⟨hover, hjoins⟩ :=
          isCanonical_or_overhangs_join hvertical hclose hrises hends
        · exact .inr (.inr (.inl hcanonical))
        · refine .inr (.inr (.inr ⟨hover, ht, ?_⟩))
          rwa [if_neg hle]

theorem isCanonical_amended (s : Segment ℚ) : (s.amended?.getD (.segment s)).IsCanonical := by
  have hswap : pointClose s.x₂ s.y₂ s.x₁ s.y₁ = pointClose s.x₁ s.y₁ s.x₂ s.y₂ := by
    rw [pointClose, pointClose, close_comm s.x₂, close_comm s.y₂]
  unfold amended?
  cases hpoint : pointClose s.x₁ s.y₁ s.x₂ s.y₂ with
  | true => trivial
  | false =>
    rw [if_neg Bool.false_ne_true]
    cases hvertical : close s.x₁ s.x₂ with
    | true =>
      have hy : s.y₁ ≠ s.y₂ := by
        intro heq
        rw [pointClose, hvertical, heq, close_self] at hpoint
        cases hpoint
      rw [if_pos rfl]
      by_cases hlt : s.y₁ < s.y₂
      · rw [if_pos (lt_iff.2 hlt)]
        exact ⟨hpoint, fun _ => hlt,
          fun h => absurd (hvertical.symm.trans h) Bool.false_ne_true.symm⟩
      · rw [if_neg (mt lt_iff.1 hlt)]
        refine ⟨hswap.trans hpoint, fun _ => lt_of_le_of_ne (not_lt.1 hlt) hy.symm, ?_⟩
        intro h
        rw [isVertical, swap, close_comm, hvertical] at h
        cases h
    | false =>
      have hx : s.x₁ ≠ s.x₂ := by
        intro heq
        rw [heq, close_self] at hvertical
        cases hvertical
      rw [if_neg Bool.false_ne_true]
      by_cases hlt : s.x₂ < s.x₁
      · rw [if_pos (lt_iff.2 hlt)]
        refine ⟨hswap.trans hpoint, ?_, fun _ => hlt⟩
        intro h
        rw [isVertical, swap, close_comm, hvertical] at h
        cases h
      · rw [if_neg (mt lt_iff.1 hlt)]
        exact ⟨hpoint, fun h => absurd (hvertical.symm.trans h) Bool.false_ne_true,
          fun _ => lt_of_le_of_ne (not_lt.1 hlt) hx⟩

theorem IsCanonical.shift (h : s.IsCanonical) (dx dy : ℚ) :
    (⟨s.x₁ + dx, s.y₁ + dy, s.x₂ + dx, s.y₂ + dy⟩ : Segment ℚ).IsCanonical := by
  obtain ⟨hapart, hrising, hforward⟩ := h
  refine ⟨?_, ?_, ?_⟩
  · rw [pointClose_add_right]
    exact hapart
  · intro hvertical
    rw [isVertical, close_add_right] at hvertical
    exact add_lt_add_left (hrising hvertical) dy
  · intro hvertical
    rw [isVertical, close_add_right] at hvertical
    exact add_lt_add_left (hforward hvertical) dx

theorem Overhangs.shift (h : s.Overhangs) (dx dy : ℚ) :
    (⟨s.x₁ + dx, s.y₁ + dy, s.x₂ + dx, s.y₂ + dy⟩ : Segment ℚ).Overhangs := by
  obtain ⟨hback, hnear, hrises⟩ := h
  refine ⟨?_, ?_, ?_⟩
  · rwa [add_sub_add_right_eq_sub]
  · rwa [add_sub_add_right_eq_sub]
  · rwa [add_sub_add_right_eq_sub]

end Segment

namespace Value

/-- Whether a value is a segment that leans back. -/
def Overhangs : Value ℚ → Prop
  | segment s => s.Overhangs
  | _ => False

theorem isCanonical_iff_obeys {v : Value ℚ} : v.IsCanonical ↔ v.Obeys Segment.IsCanonical := by
  cases v <;> exact Iff.rfl

theorem obeys_or_iff {v : Value ℚ} :
    v.Obeys (fun s => s.IsCanonical ∨ s.Overhangs) ↔ v.IsCanonical ∨ v.Overhangs := by
  cases v with
  | segment s => exact Iff.rfl
  | placeholder => exact ⟨False.elim, fun h => h.elim id id⟩
  | _ => exact iff_of_true trivial (.inl trivial)

/-- What a literal becomes is canonical. -/
theorem isCanonical_amended {v : Value ℚ} (h : v.IsConcrete) :
    (v.amended?.getD v).IsCanonical := by
  cases v with
  | segment s => exact s.isCanonical_amended
  | placeholder => exact absurd rfl h
  | _ => trivial

end Value

/-- A tree is canonical once its literals are. -/
theorem Expr.obeys_normalized {e : Expr ℚ} (h : e.IsConcrete) :
    e.normalized.Obeys Segment.IsCanonical := by
  induction e with
  | literal v span => exact Value.isCanonical_iff_obeys.1 (Value.isCanonical_amended h)
  | var name span => trivial
  | intersect a b span iha ihb => exact ⟨iha h.1, ihb h.2⟩
  | bind name a b span iha ihb => exact ⟨iha h.1, ihb h.2⟩
  | shift dx dy a span ih => exact ih h
  | placeholder => exact h

theorem Expr.Obeys.imp {rule rule' : Segment ℚ → Prop} (himp : ∀ s, rule s → rule' s) {e : Expr ℚ}
    (h : e.Obeys rule) : e.Obeys rule' := by
  induction e with
  | literal v span =>
    cases v with
    | segment s => exact himp s h
    | _ => exact h
  | var name span => trivial
  | intersect a b span iha ihb => exact ⟨iha h.1, ihb h.2⟩
  | bind name a b span iha ihb => exact ⟨iha h.1, ihb h.2⟩
  | shift dx dy a span ih => exact ih h
  | placeholder => exact h

/-! ## What an evaluation shows -/

namespace Discipline

/-- Every value that is shown is canonical or leans back. -/
def upToOverhang : Discipline ℚ :=
  .reports (fun s => s.IsCanonical ∨ s.Overhangs) (fun _ => True)
    (fun event => ∀ v ∈ event.shown, v.IsCanonical ∨ v.Overhangs)
    (fun _ dx dy h => h.imp (·.shift dx dy) (·.shift dx dy))
    (fun _ h _ _ v hv => Value.obeys_or_iff.1 (h v hv))
    (by
      intro t s hagrees ht hs _ _
      refine ⟨?_, ?_⟩
      · intro r hr
        obtain rfl | rfl | hcanonical | ⟨hover, _⟩ := Segment.common_eq_segment hagrees hr
        · exact ht
        · exact hs
        · exact .inl hcanonical
        · exact .inr hover
      · intro v hv
        rcases List.mem_pair.1 hv with rfl | rfl
        · exact ht
        · exact hs)

/-- If no entangled segments are clipped, every value that is shown is canonical. -/
def unentangled : Discipline ℚ :=
  .reports Segment.IsCanonical (fun event => ∀ t s, event = .clips t s → ¬t.Entangled s)
    (fun event => ∀ v ∈ event.shown, v.IsCanonical) (fun _ dx dy h => h.shift dx dy)
    (fun _ h _ _ v hv => Value.isCanonical_iff_obeys.2 (h v hv))
    (by
      intro t s hagrees ht hs hfree _
      refine ⟨?_, ?_⟩
      · intro r hr
        obtain rfl | rfl | hcanonical | ⟨_, htangled⟩ := Segment.common_eq_segment hagrees hr
        · exact ht
        · exact hs
        · exact hcanonical
        · exact absurd htangled (hfree t s rfl)
      · intro v hv
        rcases List.mem_pair.1 hv with rfl | rfl
        · exact ht
        · exact hs)

/-- If every value that is shown is canonical, no entangled segments are clipped. -/
def canonical : Discipline ℚ :=
  .reports Segment.IsCanonical (fun event => ∀ v ∈ event.shown, v.IsCanonical)
    (fun event => ∀ t s, event = .clips t s → ¬t.Entangled s) (fun _ dx dy h => h.shift dx dy)
    (fun _ _ hne _ t s heq => absurd heq (hne t s))
    (by
      intro t s _ ht hs _ hclipped
      have hcommon : (t.common s).IsCanonical := hclipped _ (List.mem_singleton_self _)
      refine ⟨?_, ?_⟩
      · intro r hr
        rw [hr] at hcommon
        exact hcommon
      · rintro _ _ ⟨⟩ htangled
        obtain ⟨r, hr, hback⟩ := htangled.exists_common
        rw [hr] at hcommon
        exact Segment.not_isCanonical_of_back hback hcommon)

end Discipline

/-- A closed expression has a value, and each value on the way to it is canonical or leans back. All
of them are canonical exactly if no entangled segments are clipped to each other. -/
theorem canonical_iff_not_entangled (e : Expr ℚ) (hconcrete : e.IsConcrete)
    (hclosed : e.free = []) :
    ∃ n v events, e.normalize.result = .ok n ∧ e.evaluate.result = .ok v ∧
      n.evaluateIn (some .empty) .debug = (.ok v, events) ∧
      (∀ event ∈ events, ∀ w ∈ event.shown, w.IsCanonical ∨ w.Overhangs) ∧
      ((∀ event ∈ events, ∀ w ∈ event.shown, w.IsCanonical) ↔
        ∀ t s, .clips t s ∈ events → ¬t.Entangled s) := by
  have hnormalize := Expr.normalize_fst hconcrete .warning
  have hcanonical := Expr.obeys_normalized hconcrete
  have serves (D : Discipline ℚ) : D.Serves .empty e.normalized.free := by
    intro name hname
    rw [Expr.free_normalized, hclosed] at hname
    cases hname
  obtain ⟨v, hv, _⟩ := Discipline.run_evaluateIn (D := .total ℚ) (some .empty)
    hconcrete.normalized.obeys (serves _)
  have hsteady := (Discipline.run_evaluateIn (D := .steady ℚ) (some .empty)
    hconcrete.normalized.obeys (serves _)).1
  obtain ⟨events, hrun⟩ : ∃ events,
      e.normalized.evaluateIn (some .empty) .debug = (.ok v, events) :=
    ⟨_, Prod.ext ((hsteady.fst_eq .debug).trans hv) rfl⟩
  refine ⟨e.normalized, v, events, hnormalize, ?_, hrun, ?_, ?_, ?_⟩
  · have hnormal : e.normalize.result = .ok e.normalized := hnormalize
    rw [Expr.evaluate, Traced.result_call, Traced.result_bind, hnormal]
    exact hv
  · have hkeeps := Discipline.run_evaluateIn (D := .upToOverhang) (some .empty)
      (hcanonical.imp fun _ => .inl) (serves _)
    exact (hkeeps v events hrun fun _ _ => trivial).2
  · intro hshown t s hclips
    have hkeeps := Discipline.run_evaluateIn (D := .canonical) (some .empty)
      hcanonical (serves _)
    exact (hkeeps v events hrun hshown).2 _ hclips t s rfl
  · intro hfree
    have hkeeps := Discipline.run_evaluateIn (D := .unentangled) (some .empty)
      hcanonical (serves _)
    refine (hkeeps v events hrun ?_).2
    rintro _ hevent t s rfl
    exact hfree t s hevent

/-- A segment that leans back by less than the tolerance. -/
def Segment.leftward : Segment ℚ := ⟨0, 0, -9 / 1000000, 10⟩

/-- A vertical segment beside `Segment.leftward` and above its start. -/
def Segment.beside : Segment ℚ := ⟨9 / 1000000, 5, 9 / 1000000, 20⟩

/-- The intersection of two vertical segments. -/
def Expr.tangle : Expr ℚ :=
  .intersect (.literal (.segment .leftward) none) (.literal (.segment .beside) none) none

theorem canonical_iff_not_entangled_tangle :
    ∃ n v events, Expr.tangle.normalize.result = .ok n ∧ Expr.tangle.evaluate.result = .ok v ∧
      n.evaluateIn (some .empty) .debug = (.ok v, events) ∧
      (∀ event ∈ events, ∀ w ∈ event.shown, w.IsCanonical ∨ w.Overhangs) ∧
      ((∀ event ∈ events, ∀ w ∈ event.shown, w.IsCanonical) ↔
        ∀ t s, .clips t s ∈ events → ¬t.Entangled s) :=
  canonical_iff_not_entangled Expr.tangle ⟨nofun, nofun⟩ rfl

/-- Two canonical literals can have an intersection that is not canonical, and that has nothing in
common with itself when it is intersected again. -/
theorem evaluate_not_canonical :
    (Value.segment .leftward).IsCanonical ∧ (Value.segment .beside).IsCanonical ∧
      Expr.tangle.evaluate.result = .ok (.segment ⟨9 / 1000000, 5, -9 / 1000000, 10⟩) ∧
      ¬(Value.segment ⟨9 / 1000000, 5, -9 / 1000000, 10⟩).IsCanonical ∧
      (Expr.evaluate (.bind "s" Expr.tangle (.intersect (.var "s" none) (.var "s" none) none)
        none)).result = .ok .empty := by
  refine ⟨?_, ?_, by decide +kernel, ?_, by decide +kernel⟩
  · constructor <;> decide +kernel
  · constructor <;> decide +kernel
  · exact Segment.not_isCanonical_of_back (by decide +kernel)

end Planar
