import Planar.Proofs.Number.SignedZero
import Planar.Proofs.Run.Transparency
import Planar.Proofs.Source.Scoping

/-!
# What normalizing leaves alone

A tree consists of its frame, which is everything but the values of its literals, and of those
values from left to right. Normalizing keeps the frame and works on the values one by one. What
depends on the frame alone stays the same, and so does the outcome of the check: it is passed if the
frame passes it and every literal is finite, and a segment is finite exactly if what it becomes is.

* `Expr.frame`, `Expr.leaves` — the two parts of a tree;
* `Expr.eq_of_frame_eq` — a tree is determined by them;
* `Expr.frame_normalized`, `Expr.leaves_normalized` — what normalizing does to them;
* `Expr.check_eq_ok_iff` — the check of a tree as a check of its parts;
* `Value.isFinite_amended_iff` — canonical forms are finite exactly if the values are;
* `normalize_frame` — normalizing touches only literals.
-/

namespace Planar

open Scalar

namespace Expr

variable {α : Type}

/-! ## Frame and leaves -/

/-- The tree with every literal made empty: its shape, names, offsets and places. -/
def frame : Expr α → Expr α
  | literal _ span => literal .empty span
  | var name span => var name span
  | intersect a b span => intersect a.frame b.frame span
  | bind name a b span => bind name a.frame b.frame span
  | shift dx dy a span => shift dx dy a.frame span
  | placeholder => placeholder

/-- The values of the literals of a tree, from left to right. -/
def leaves : Expr α → List (Value α)
  | literal v _ => [v]
  | intersect a b _ | bind _ a b _ => a.leaves ++ b.leaves
  | shift _ _ a _ => a.leaves
  | var _ _ | placeholder => []

theorem length_leaves_frame (e : Expr α) : e.frame.leaves.length = e.leaves.length := by
  induction e with
  | intersect a b span iha ihb => simp [frame, leaves, iha, ihb]
  | bind name a b span iha ihb => simp [frame, leaves, iha, ihb]
  | shift dx dy a span ih => exact ih
  | _ => rfl

/-- Two pairs of trees of the same frames have the same leaves only if their parts do. -/
theorem leaves_append_inj {a b a' b' : Expr α} (hframe : a.frame = a'.frame)
    (h : a.leaves ++ b.leaves = a'.leaves ++ b'.leaves) :
    a.leaves = a'.leaves ∧ b.leaves = b'.leaves := by
  apply List.append_inj h
  rw [← length_leaves_frame, hframe, length_leaves_frame]

/-- A tree is determined by its frame and its leaves. -/
theorem eq_of_frame_eq {e e' : Expr α} (hframe : e.frame = e'.frame)
    (hleaves : e.leaves = e'.leaves) : e = e' := by
  induction e generalizing e' with
  | literal v span =>
    cases e' with
    | literal w span' =>
      obtain rfl : span = span' := by simpa [frame] using hframe
      obtain rfl : v = w := by simpa [leaves] using hleaves
      rfl
    | _ => simp [frame] at hframe
  | var name span =>
    cases e' with
    | var name' span' => exact hframe
    | _ => simp [frame] at hframe
  | intersect a b span iha ihb =>
    cases e' with
    | intersect a' b' span' =>
      obtain ⟨ha, hb, rfl⟩ : a.frame = a'.frame ∧ b.frame = b'.frame ∧ span = span' := by
        simpa [frame] using hframe
      obtain ⟨hla, hlb⟩ := leaves_append_inj ha hleaves
      rw [iha ha hla, ihb hb hlb]
    | _ => simp [frame] at hframe
  | bind name a b span iha ihb =>
    cases e' with
    | bind name' a' b' span' =>
      obtain ⟨rfl, ha, hb, rfl⟩ :
          name = name' ∧ a.frame = a'.frame ∧ b.frame = b'.frame ∧ span = span' := by
        simpa [frame] using hframe
      obtain ⟨hla, hlb⟩ := leaves_append_inj ha hleaves
      rw [iha ha hla, ihb hb hlb]
    | _ => simp [frame] at hframe
  | shift dx dy a span ih =>
    cases e' with
    | shift dx' dy' a' span' =>
      obtain ⟨rfl, rfl, ha, rfl⟩ : dx = dx' ∧ dy = dy' ∧ a.frame = a'.frame ∧ span = span' := by
        simpa [frame] using hframe
      rw [ih ha hleaves]
    | _ => simp [frame] at hframe
  | placeholder =>
    cases e' with
    | placeholder => rfl
    | _ => simp [frame] at hframe

/-- The search for the literals of a tree finds its leaves. -/
theorem result_literals {e : Expr α} (h : e.isComplete = true) :
    e.literals.result = .ok e.leaves := by
  induction e with
  | literal v span => rw [literals, Traced.result_call, Traced.result_pure, leaves]
  | var name span => rw [literals, Traced.result_call, Traced.result_pure, leaves]
  | intersect a b span iha ihb =>
    obtain ⟨ha, hb⟩ := Bool.and_eq_true_iff.1 h
    simp only [literals, Traced.result_call, Traced.result_bind, iha ha, ihb hb]
    rfl
  | bind name a b span iha ihb =>
    obtain ⟨ha, hb⟩ := Bool.and_eq_true_iff.1 h
    simp only [literals, Traced.result_call, Traced.result_bind, iha ha, ihb hb]
    rfl
  | shift dx dy a span ih =>
    rw [literals, Traced.result_call, leaves]
    exact ih h
  | placeholder => cases h

theorem yields_literals {e : Expr α} (h : e.IsConcrete) : e.literals.Yields e.leaves :=
  (steady_literals h.holdsSets).steady.yields (result_literals h.isComplete)

/-! ## Names -/

@[simp]
theorem free_frame (e : Expr α) : e.frame.free = e.free := by
  induction e with
  | intersect a b span iha ihb => rw [frame, free, free, iha, ihb]
  | bind name a b span iha ihb => rw [frame, free, free, iha, ihb]
  | shift dx dy a span ih => exact ih
  | _ => rfl

@[simp]
theorem isComplete_frame (e : Expr α) : e.frame.isComplete = e.isComplete := by
  induction e with
  | intersect a b span iha ihb => rw [frame, isComplete, isComplete, iha, ihb]
  | bind name a b span iha ihb => rw [frame, isComplete, isComplete, iha, ihb]
  | shift dx dy a span ih => exact ih
  | _ => rfl

/-- The free names of a tree are those of its frame. -/
theorem freeNames_eq_of_frame_eq {e e' : Expr α} (h : e.frame = e'.frame) :
    e.freeNames = e'.freeNames := by
  unfold freeNames
  rw [← isComplete_frame e, ← free_frame e, h, isComplete_frame, free_frame]

/-! ## Normalized trees -/

section Normalized

variable [Scalar α]

@[simp]
theorem frame_normalized (e : Expr α) : e.normalized.frame = e.frame := by
  induction e with
  | intersect a b span iha ihb => rw [normalized, frame, frame, iha, ihb]
  | bind name a b span iha ihb => rw [normalized, frame, frame, iha, ihb]
  | shift dx dy a span ih => rw [normalized, frame, frame, ih]
  | _ => rfl

theorem leaves_normalized (e : Expr α) :
    e.normalized.leaves = e.leaves.map fun v => v.amended?.getD v := by
  induction e with
  | intersect a b span iha ihb => rw [normalized, leaves, leaves, iha, ihb, List.map_append]
  | bind name a b span iha ihb => rw [normalized, leaves, leaves, iha, ihb, List.map_append]
  | shift dx dy a span ih => exact ih
  | _ => rfl

end Normalized

theorem isConcrete_of_mem_leaves {e : Expr α} (h : e.IsConcrete) {v : Value α}
    (hv : v ∈ e.leaves) : v.IsConcrete :=
  (steady_literals h.holdsSets).yields _ (result_literals h.isComplete) v hv

end Expr

/-! ## The check -/

/-- Whether a value is a set with finite coordinates. -/
def Value.IsFinite (v : Value Float) : Prop :=
  ∃ xs, v.coordinates? = some xs ∧ ∀ x ∈ xs, x.isFinite = true

theorem Segment.isFinite_iff {s : Segment Float} :
    (Value.segment s).IsFinite ↔ (s.x₁.isFinite = true ∧ s.y₁.isFinite = true) ∧
      s.x₂.isFinite = true ∧ s.y₂.isFinite = true := by
  simp [Value.IsFinite, Value.coordinates?, and_assoc]

namespace Expr

theorem seq_eq_ok_iff {ε : Type} {first : Except ε Unit} {second : Unit → Except ε Unit} :
    (first >>= second) = .ok () ↔ first = .ok () ∧ second () = .ok () := by
  cases first with
  | error fault => exact iff_of_false nofun fun h => nomatch h.1
  | ok u => exact ⟨fun h => ⟨rfl, h⟩, fun h => h.2⟩

/-- A tree passes the check if its frame does and its literals are finite. -/
theorem check_eq_ok_iff (e : Expr Float) (bound : List String) :
    e.check bound = .ok () ↔ e.frame.check bound = .ok () ∧ ∀ v ∈ e.leaves, v.IsFinite := by
  induction e generalizing bound with
  | literal v span =>
    have hframe : (literal (.empty : Value Float) span).check bound = .ok () := rfl
    simp only [frame, leaves, hframe, true_and, List.mem_singleton, forall_eq, check]
    cases hv : v.coordinates? with
    | none => simp [Value.IsFinite, hv]
    | some xs => simp [Value.IsFinite, hv, requireFinite_eq_ok_iff]
  | var name span => simp [frame, leaves]
  | intersect a b span iha ihb =>
    simp only [check, frame, leaves, seq_eq_ok_iff, iha, ihb, List.forall_mem_append]
    tauto
  | bind name a b span iha ihb =>
    simp only [check, frame, leaves]
    cases name.isEmpty || (Keyword.ofWord? name).isSome with
    | true =>
      apply iff_of_false
      · intro h
        cases h
      · rintro ⟨h, -⟩
        cases h
    | false =>
      simp only [Bool.false_eq_true, if_false, seq_eq_ok_iff, iha, ihb, List.forall_mem_append]
      tauto
  | shift dx dy a span ih =>
    simp only [check, frame, leaves, seq_eq_ok_iff, ih]
    tauto
  | placeholder => simp [frame, leaves]

end Expr

/-- A segment is finite exactly if what it becomes is. If it becomes a point its ends are close, and
then they are finite. -/
theorem Segment.isFinite_amended_iff (s : Segment Float) :
    (s.amended?.getD (.segment s)).IsFinite ↔ (Value.segment s).IsFinite := by
  have hswap : (Value.segment s.swap).IsFinite ↔ (Value.segment s).IsFinite := by
    rw [isFinite_iff, isFinite_iff]
    exact And.comm
  unfold amended?
  cases hpoint : pointClose s.x₁ s.y₁ s.x₂ s.y₂ with
  | true =>
    rw [pointClose, Bool.and_eq_true] at hpoint
    obtain ⟨hx₁, hx₂⟩ := Double.isFinite_of_close hpoint.1
    obtain ⟨hy₁, hy₂⟩ := Double.isFinite_of_close hpoint.2
    apply iff_of_true
    · exact ⟨[s.x₁, s.y₁], rfl, by simp [hx₁, hy₁]⟩
    · exact isFinite_iff.2 ⟨⟨hx₁, hy₁⟩, hx₂, hy₂⟩
  | false =>
    rw [if_neg Bool.false_ne_true]
    split
    · split
      · exact Iff.rfl
      · exact hswap
    · split
      · exact hswap
      · exact Iff.rfl

theorem Value.isFinite_amended_iff (v : Value Float) : (v.amended?.getD v).IsFinite ↔ v.IsFinite := by
  cases v with
  | segment s => exact s.isFinite_amended_iff
  | _ => exact Iff.rfl

theorem Expr.validate_normalized_iff (e : Expr Float) :
    e.normalized.validate = .ok () ↔ e.validate = .ok () := by
  rw [validate, validate, check_eq_ok_iff, check_eq_ok_iff e, frame_normalized, leaves_normalized]
  simp only [List.forall_mem_map, Value.isFinite_amended_iff]

/-- Normalizing touches only literals: the frame of the tree stays, the literals are put in canonical
form one by one, the free names are the same, and the check passes before exactly if it does
after. -/
theorem normalize_frame (e : Expr Float) (h : e.IsConcrete) :
    ∃ n vs ws, e.normalize.Yields n ∧ n.frame = e.frame ∧
      e.literals.Yields vs ∧ n.literals.Yields ws ∧
      List.Forall₂ (fun v w => v.canonical.Yields w) vs ws ∧
      (∃ names, e.freeNames = .ok names ∧ n.freeNames = .ok names) ∧
      (n.validate = .ok () ↔ e.validate = .ok ()) := by
  refine ⟨e.normalized, e.leaves, e.normalized.leaves, Expr.normalize_fst h, e.frame_normalized,
    Expr.yields_literals h, Expr.yields_literals h.normalized, ?_, ?_, e.validate_normalized_iff⟩
  · rw [Expr.leaves_normalized, List.forall₂_map_right_iff, List.forall₂_same]
    intro v hv
    exact Value.yields_canonical (Expr.isConcrete_of_mem_leaves h hv)
  · refine ⟨_, if_pos h.isComplete, ?_⟩
    rw [Expr.freeNames_eq_of_frame_eq e.frame_normalized]
    exact if_pos h.isComplete

/-- A program with a segment that is turned round, one whose ends are not all numbers, and a shift by
what is no number. -/
def Expr.ragged : Expr Float :=
  .bind "s" (.literal (.segment ⟨4, 1, 0, -0⟩) (some ⟨1, 9⟩))
    (.shift (0 / 0) 1 (.intersect (.literal (.segment ⟨1 / 0, 0, 3, 0 / 0⟩) none)
      (.var "s" (some ⟨2, 5⟩)) none) none) (some ⟨1, 1⟩)

theorem normalize_frame_ragged :
    Expr.ragged.IsConcrete ∧
      ∃ n vs ws, Expr.ragged.normalize.Yields n ∧ n.frame = Expr.ragged.frame ∧
        Expr.ragged.literals.Yields vs ∧ n.literals.Yields ws ∧
        List.Forall₂ (fun v w => v.canonical.Yields w) vs ws ∧
        (∃ names, Expr.ragged.freeNames = .ok names ∧ n.freeNames = .ok names) ∧
        (n.validate = .ok () ↔ Expr.ragged.validate = .ok ()) := by
  have hconcrete : Expr.ragged.IsConcrete := ⟨nofun, nofun, trivial⟩
  exact ⟨hconcrete, normalize_frame _ hconcrete⟩

end Planar
