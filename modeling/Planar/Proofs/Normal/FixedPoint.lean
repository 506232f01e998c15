import Planar.Proofs.Normal.Frame
import Planar.Proofs.Run.Alike

/-!
# Normal forms

Normalizing a tree with finite segments puts the ends of its segments in order. Doubles that are
not close are one less than the other, so a segment whose ends are apart is in order in exactly one
of its two directions, and both directions have the same canonical form. A tree is its own normal
form exactly if its segments are in order, and turning segments round changes neither the normal
form nor the value of a tree.

* `Segment.IsOrdered` — segments that are apart and in order;
* `Segment.amended?_cases` — the three canonical forms of a finite segment;
* `Expr.normalized_eq_self_iff`, `Expr.same_normalized_iff` — normal trees, by their leaves;
* `normalize_fixed_point` — normalizing reaches a fixed point at once;
* `evaluate_turned` — the direction of segments does not matter.
-/

namespace Planar

open Scalar

/-! ## Segments in order -/

namespace Segment

/-- Whether the ends of a segment are apart and in order: upwards if the segment is vertical, and
from left to right otherwise. -/
structure IsOrdered {α : Type} [Scalar α] (s : Segment α) : Prop where
  apart : pointClose s.x₁ s.y₁ s.x₂ s.y₂ = false
  rising : s.isVertical = true → lt s.y₁ s.y₂ = true
  forward : s.isVertical = false → lt s.x₁ s.x₂ = true

variable {s : Segment Float}

theorem pointClose_swap (s : Segment Float) :
    pointClose s.swap.x₁ s.swap.y₁ s.swap.x₂ s.swap.y₂ = pointClose s.x₁ s.y₁ s.x₂ s.y₂ := by
  simp only [swap, pointClose]
  rw [Double.close_comm s.x₂, Double.close_comm s.y₂]

theorem isVertical_swap (s : Segment Float) : s.swap.isVertical = s.isVertical :=
  Double.close_comm s.x₂ s.x₁

/-- A finite segment whose ends are apart is in order in one of its directions. -/
theorem isOrdered_or_swap (hfinite : (Value.segment s).IsFinite)
    (happart : pointClose s.x₁ s.y₁ s.x₂ s.y₂ = false) : s.IsOrdered ∨ s.swap.IsOrdered := by
  obtain ⟨⟨hx₁, hy₁⟩, hx₂, hy₂⟩ := isFinite_iff.1 hfinite
  have happart' := (pointClose_swap s).trans happart
  have hvertical' := isVertical_swap s
  cases hvertical : s.isVertical with
  | true =>
    rw [hvertical] at hvertical'
    -- the ends are apart but close in the horizontal direction, so their heights are not close
    have hclose : close s.y₁ s.y₂ = false := by
      rwa [pointClose, show close s.x₁ s.x₂ = true from hvertical, Bool.true_and] at happart
    cases hlt : lt s.y₁ s.y₂ with
    | true => exact .inl ⟨happart, fun _ => hlt, by simp [hvertical]⟩
    | false =>
      have hlt' : lt s.y₂ s.y₁ = true := Double.lt_of_not_close hy₁ hy₂ hclose hlt
      exact .inr ⟨happart', fun _ => hlt', by simp [hvertical']⟩
  | false =>
    rw [hvertical] at hvertical'
    cases hlt : lt s.x₁ s.x₂ with
    | true => exact .inl ⟨happart, by simp [hvertical], fun _ => hlt⟩
    | false =>
      have hlt' : lt s.x₂ s.x₁ = true := Double.lt_of_not_close hx₁ hx₂ hvertical hlt
      exact .inr ⟨happart', by simp [hvertical'], fun _ => hlt'⟩

theorem amended?_of_apart (happart : pointClose s.x₁ s.y₁ s.x₂ s.y₂ = false) :
    s.amended? = if s.isVertical then if lt s.y₁ s.y₂ then none else some (.segment s.swap)
      else if lt s.x₂ s.x₁ then some (.segment s.swap) else none := by
  rw [amended?, happart, if_neg Bool.false_ne_true]
  rfl

namespace IsOrdered

/-- A segment in order stays as it is. -/
theorem amended?_eq_none (h : s.IsOrdered) : s.amended? = none := by
  rw [amended?_of_apart h.apart]
  cases hvertical : s.isVertical with
  | true => rw [if_pos rfl, if_pos (h.rising hvertical)]
  | false =>
    rw [if_neg Bool.false_ne_true, Double.lt_asymm (h.forward hvertical),
      if_neg Bool.false_ne_true]

/-- Against its order, it is turned round. -/
theorem amended?_swap (h : s.IsOrdered) : s.swap.amended? = some (.segment s) := by
  rw [amended?_of_apart ((pointClose_swap s).trans h.apart), isVertical_swap]
  cases hvertical : s.isVertical with
  | true =>
    have hlt : lt s.swap.y₁ s.swap.y₂ = false := Double.lt_asymm (h.rising hvertical)
    rw [if_pos rfl, hlt, if_neg Bool.false_ne_true]
    rfl
  | false =>
    have hlt : lt s.swap.x₂ s.swap.x₁ = true := h.forward hvertical
    rw [if_neg Bool.false_ne_true, hlt, if_pos rfl]
    rfl

end IsOrdered

/-- A finite segment becomes a point, stays as it is or is turned round. -/
theorem amended?_cases (hfinite : (Value.segment s).IsFinite) :
    pointClose s.x₁ s.y₁ s.x₂ s.y₂ = true ∧ s.amended? = some (.point ⟨s.x₁, s.y₁⟩) ∨
      s.IsOrdered ∧ s.amended? = none ∨
      s.swap.IsOrdered ∧ s.amended? = some (.segment s.swap) := by
  cases happart : pointClose s.x₁ s.y₁ s.x₂ s.y₂ with
  | true => exact .inl ⟨rfl, by rw [amended?, happart, if_pos rfl]⟩
  | false =>
    rcases isOrdered_or_swap hfinite happart with h | h
    · exact .inr (.inl ⟨h, h.amended?_eq_none⟩)
    · exact .inr (.inr ⟨h, h.amended?_swap⟩)

/-- If a finite segment becomes a segment, that is in order. -/
theorem isOrdered_of_amended (hfinite : (Value.segment s).IsFinite) {t : Segment Float}
    (h : s.amended?.getD (.segment s) = .segment t) : t.IsOrdered := by
  obtain ⟨-, hamended⟩ | ⟨hordered, hamended⟩ | ⟨hordered, hamended⟩ := amended?_cases hfinite
  · rw [hamended] at h
    cases h
  · rw [hamended] at h
    cases h
    exact hordered
  · rw [hamended] at h
    cases h
    exact hordered

/-- Both directions of a finite segment whose ends are apart have the same canonical form. -/
theorem amended_swap (hfinite : (Value.segment s).IsFinite)
    (happart : pointClose s.x₁ s.y₁ s.x₂ s.y₂ = false) :
    s.swap.amended?.getD (.segment s.swap) = s.amended?.getD (.segment s) := by
  rcases isOrdered_or_swap hfinite happart with h | h
  · rw [h.amended?_swap, h.amended?_eq_none]
    rfl
  · have hback : s.amended? = some (.segment s.swap) := h.amended?_swap
    rw [h.amended?_eq_none, hback]
    rfl

end Segment

/-! ## The same values and trees -/

/-- Whether two values are one and the same, or equal. A value of which a coordinate is no number is
not equal to itself. -/
def Value.same (v w : Value Float) : Bool := decide (v = w) || v.equal w

/-- Whether two trees are the same up to positions. -/
def Expr.same (e e' : Expr Float) : Bool :=
  Expr.agree Value.same (fun x y => decide (x = y) || eq x y) e e'

@[simp]
theorem Value.same_self (v : Value Float) : v.same v = true := by simp [same]

/-- A segment that is equal to the one it is turned into has close ends. -/
theorem Segment.not_same_swap {s : Segment Float} (hfinite : (Value.segment s).IsFinite)
    (happart : pointClose s.x₁ s.y₁ s.x₂ s.y₂ = false) :
    (Value.segment s.swap).same (.segment s) = false := by
  obtain ⟨⟨hx₁, hy₁⟩, -, -⟩ := isFinite_iff.1 hfinite
  rw [← Bool.not_eq_true]
  intro hsame
  have halike : Planar.Alike s.x₂ s.x₁ ∧ Planar.Alike s.y₂ s.y₁ := by
    rcases Bool.or_eq_true_iff.1 hsame with heq | hequal
    · have heq : s.swap = s := Value.segment.inj (of_decide_eq_true heq)
      exact ⟨congrArg x₁ heq ▸ .refl _, congrArg y₁ heq ▸ .refl _⟩
    · cases Value.alike_of_equal hequal with
      | segment halike => exact ⟨halike.x₁, halike.y₁⟩
  have hx : close s.x₁ s.x₂ = true :=
    (Planar.Alike.close_eq (.refl _) halike.1).trans (Double.close_self hx₁)
  have hy : close s.y₁ s.y₂ = true :=
    (Planar.Alike.close_eq (.refl _) halike.2).trans (Double.close_self hy₁)
  rw [pointClose, hx, hy] at happart
  cases happart

/-- A finite segment is the same as its canonical form exactly if it is in order. -/
theorem Segment.same_amended_iff {s : Segment Float} (hfinite : (Value.segment s).IsFinite) :
    (s.amended?.getD (.segment s)).same (.segment s) = true ↔ s.IsOrdered := by
  obtain ⟨hclose, hamended⟩ | ⟨hordered, hamended⟩ | ⟨hordered, hamended⟩ := amended?_cases hfinite
  · apply iff_of_false
    · -- a point is never the same as a segment
      rw [hamended]
      simp [Value.same, Value.equal, Value.agree, Value.coordinates?, Value.kind]
    · intro hordered
      rw [hordered.apart] at hclose
      cases hclose
  · apply iff_of_true _ hordered
    rw [hamended]
    exact Value.same_self _
  · have happart := (pointClose_swap s).symm.trans hordered.apart
    apply iff_of_false
    · rw [hamended, Option.getD_some, not_same_swap hfinite happart]
      exact Bool.false_ne_true
    · intro h
      rw [h.amended?_eq_none] at hamended
      cases hamended

namespace Expr

variable {e : Expr Float}

/-- A tree is its own normal form exactly if its leaves are in canonical form. -/
theorem normalized_eq_self_iff : e.normalized = e ↔ ∀ v ∈ e.leaves, v.amended?.getD v = v := by
  constructor
  · intro h
    have hleaves := e.leaves_normalized
    rw [h] at hleaves
    exact List.map_inj_left.1 (hleaves.symm.trans (List.map_id _).symm)
  · intro h
    apply eq_of_frame_eq e.frame_normalized
    rw [leaves_normalized]
    exact (List.map_congr_left h).trans (List.map_id _)

theorem same_normalized_iff :
    e.normalized.same e = true ↔ ∀ v ∈ e.leaves, (v.amended?.getD v).same v = true := by
  unfold same
  induction e with
  | literal v span => simp [normalized, leaves, agree]
  | var name span => simp [normalized, leaves, agree]
  | intersect a b span iha ihb =>
    simp [normalized, leaves, agree, iha, ihb, or_imp, forall_and]
  | bind name a b span iha ihb =>
    simp [normalized, leaves, agree, iha, ihb, or_imp, forall_and]
  | shift dx dy a span ih => simp [normalized, leaves, agree, ih]
  | placeholder => simp [normalized, leaves, agree]

/-- Whether the segments among the literals of a tree have finite ends. -/
def HasFiniteSegments (e : Expr Float) : Prop :=
  ∀ s, Value.segment s ∈ e.leaves → (Value.segment s).IsFinite

/-- Whether the segments among the literals of a tree are in order. -/
def HasOrderedSegments (e : Expr Float) : Prop := ∀ s, Value.segment s ∈ e.leaves → s.IsOrdered

theorem HasOrderedSegments.normalized_eq (h : e.HasOrderedSegments) : e.normalized = e := by
  rw [normalized_eq_self_iff]
  intro v hv
  cases v with
  | segment s =>
    show s.amended?.getD (.segment s) = _
    rw [(h s hv).amended?_eq_none]
    rfl
  | _ => rfl

theorem HasFiniteSegments.normalized (h : e.HasFiniteSegments) :
    e.normalized.HasOrderedSegments := by
  intro t ht
  rw [leaves_normalized, List.mem_map] at ht
  obtain ⟨v, hv, hamended⟩ := ht
  cases v with
  | segment s => exact Segment.isOrdered_of_amended (h s hv) hamended
  | _ => cases hamended

theorem HasFiniteSegments.same_normalized_iff (h : e.HasFiniteSegments) :
    e.normalized.same e = true ↔ e.HasOrderedSegments := by
  rw [Expr.same_normalized_iff]
  constructor
  · intro hsame s hs
    exact (Segment.same_amended_iff (h s hs)).1 (hsame _ hs)
  · intro hordered v hv
    cases v with
    | segment s => exact (Segment.same_amended_iff (h s hv)).2 (hordered s hv)
    | _ => exact Value.same_self _

end Expr

/-- Normalizing reaches a fixed point: the segments of a normalized tree are in order, a tree is the
same as its normal form exactly if its segments are in order, and normalizing again changes
nothing. -/
theorem normalize_fixed_point (e : Expr Float) (hcomplete : e.isComplete = true)
    (hfinite : e.HasFiniteSegments) :
    ∃ n, e.normalize.result = .ok n ∧ n.HasOrderedSegments ∧
      List.TFAE [n.same e = true, n = e, e.HasOrderedSegments] ∧ n.normalize.result = .ok n := by
  have hordered := hfinite.normalized
  have hsame := hfinite.same_normalized_iff
  refine ⟨e.normalized, Expr.result_normalize hcomplete, hordered, ?_, ?_⟩
  · tfae_have 1 ↔ 3 := hsame
    tfae_have 3 → 2 := Expr.HasOrderedSegments.normalized_eq
    tfae_have 2 → 3 := by
      intro heq
      rwa [heq] at hordered
    tfae_finish
  · rw [Expr.result_normalize, hordered.normalized_eq]
    rw [← Expr.isComplete_frame, Expr.frame_normalized, Expr.isComplete_frame, hcomplete]

/-- A segment that runs backward over almost all doubles. -/
def Segment.wide : Segment Float := ⟨1e308, 3, -1e308, -7⟩

/-- A segment that is vertical up to the tolerance and points down while it runs forward. -/
def Segment.steep : Segment Float := ⟨0, 2, 0.000009, 1⟩

/-- A program with two segments, and a shift by what is no number. -/
def Expr.crossing (s t : Segment Float) : Expr Float :=
  .bind "s" (.literal (.segment s) none)
    (.shift (0 / 0) 1 (.intersect (.literal (.segment t) (some ⟨2, 5⟩)) (.var "s" none) none) none)
    none

theorem Expr.hasFiniteSegments_crossing : (crossing .wide .steep).HasFiniteSegments := by
  intro s hs
  have hs : s = .wide ∨ s = .steep := by simpa [crossing, leaves] using hs
  rw [Segment.isFinite_iff]
  rcases hs with rfl | rfl
  · decide +kernel
  · decide +kernel

theorem normalize_fixed_point_crossing :
    (Expr.crossing .wide .steep).isComplete = true ∧
      (Expr.crossing .wide .steep).HasFiniteSegments ∧
      ∃ n, (Expr.crossing .wide .steep).normalize.result = .ok n ∧ n.HasOrderedSegments ∧
        List.TFAE [n.same (.crossing .wide .steep) = true, n = .crossing .wide .steep,
          (Expr.crossing .wide .steep).HasOrderedSegments] ∧
        n.normalize.result = .ok n := by
  have hfinite := Expr.hasFiniteSegments_crossing
  exact ⟨rfl, hfinite, normalize_fixed_point _ rfl hfinite⟩

/-! ## Turning segments round -/

/-- Whether a value is another one, with its ends exchanged if it is a segment whose ends are
apart. -/
inductive Value.Turned : Value Float → Value Float → Prop where
  | kept (v : Value Float) : Turned v v
  | swapped {s : Segment Float} (apart : pointClose s.x₁ s.y₁ s.x₂ s.y₂ = false) :
      Turned (.segment s) (.segment s.swap)

/-- Whether a tree is another one with some of its segments turned round. -/
structure Expr.Turned (e e' : Expr Float) : Prop where
  frame_eq : e'.frame = e.frame
  leaves : List.Forall₂ Value.Turned e.leaves e'.leaves

/-- Rows of finite segments have the same canonical forms when some of them are turned round. -/
theorem Value.map_amended_of_turned {vs ws : List (Value Float)}
    (hfinite : ∀ s, segment s ∈ vs → (segment s).IsFinite) (h : List.Forall₂ Turned vs ws) :
    ws.map (fun w => w.amended?.getD w) = vs.map fun v => v.amended?.getD v := by
  induction h with
  | nil => rfl
  | @cons v w vs ws hturned _ ih =>
    have hhead : w.amended?.getD w = v.amended?.getD v := by
      cases hturned with
      | kept => rfl
      | swapped happart => exact Segment.amended_swap (hfinite _ List.mem_cons_self) happart
    have htail := ih fun s hs => hfinite s (List.mem_cons_of_mem _ hs)
    rw [List.map_cons, List.map_cons, hhead, htail]

namespace Expr

variable {e e' : Expr Float}

theorem Turned.normalized_eq (h : e.Turned e') (hfinite : e.HasFiniteSegments) :
    e'.normalized = e.normalized := by
  apply eq_of_frame_eq
  · rw [frame_normalized, frame_normalized, h.frame_eq]
  · rw [leaves_normalized, leaves_normalized]
    exact Value.map_amended_of_turned hfinite h.leaves

theorem Turned.isComplete_eq (h : e.Turned e') : e'.isComplete = e.isComplete := by
  rw [← isComplete_frame, h.frame_eq, isComplete_frame]

/-- Evaluating sees a tree through its normal form. -/
theorem result_evaluate (h : e.isComplete = true) :
    e.evaluate.result = (e.normalized.evaluateIn (some .empty)).result := by
  rw [evaluate, Traced.result_call, Traced.result_bind, result_normalize h]
  rfl

end Expr

/-- The direction of the segments of a program does not matter: whichever of those whose ends are
apart are turned round, the program has the same normal form, and the same value or fault. -/
theorem evaluate_turned (e e' : Expr Float) (hcomplete : e.isComplete = true)
    (hfinite : e.HasFiniteSegments) (h : e.Turned e') :
    ∃ n, e.normalize.result = .ok n ∧ e'.normalize.result = .ok n ∧
      e'.evaluate.result = e.evaluate.result := by
  have hcomplete' : e'.isComplete = true := h.isComplete_eq.trans hcomplete
  have hnormal := h.normalized_eq hfinite
  refine ⟨e.normalized, Expr.result_normalize hcomplete, ?_, ?_⟩
  · rw [Expr.result_normalize hcomplete', hnormal]
  · rw [Expr.result_evaluate hcomplete', Expr.result_evaluate hcomplete, hnormal]

theorem evaluate_turned_crossing :
    (Expr.crossing .wide .steep).isComplete = true ∧
      (Expr.crossing .wide .steep).HasFiniteSegments ∧
      (Expr.crossing .wide .steep).Turned (.crossing .wide Segment.steep.swap) ∧
      ∃ n, (Expr.crossing .wide .steep).normalize.result = .ok n ∧
        (Expr.crossing .wide Segment.steep.swap).normalize.result = .ok n ∧
        (Expr.crossing .wide Segment.steep.swap).evaluate.result =
          (Expr.crossing .wide .steep).evaluate.result := by
  have hfinite := Expr.hasFiniteSegments_crossing
  have hsteep : pointClose Segment.steep.x₁ Segment.steep.y₁ Segment.steep.x₂ Segment.steep.y₂ =
      false := by decide +kernel
  have hturned : (Expr.crossing .wide .steep).Turned (.crossing .wide Segment.steep.swap) :=
    ⟨rfl, .cons (.kept _) (.cons (.swapped hsteep) .nil)⟩
  exact ⟨rfl, hfinite, hturned, evaluate_turned _ _ rfl hfinite hturned⟩

end Planar
