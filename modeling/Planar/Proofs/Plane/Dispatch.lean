import Planar.Proofs.Number.SignedZero
import Planar.Proofs.Plane.Decisions
import Planar.Proofs.Run.Levels

/-!
# Intersecting any two sets

Any two of the five kinds of set have an intersection, whatever their coordinates are: infinite, no
number, or the ends of a segment out of order. The result is never of a greater kind than the two
sets, and for sets of different kinds it does not depend on their order. It takes few calls, and
nothing is divided by zero on the way.

* `Decided.intersect_comm` — sets of different kinds are asked the same questions in either order;
* `Value.Narrows`, `Value.exists_narrows` — what the intersection of two sets can be;
* `Traced.CallsAtMost`, `Value.callsAtMost_intersect` — how many calls an intersection takes;
* `Scalar.dividing`, `Value.intersect_dividing` — only differences of scalars that are not close are
  divided by;
* `intersect_comm_of_kind_ne`, `intersect_narrows` — the two main statements.
-/

namespace Planar

open Scalar

variable {α β γ : Type}

/-! ## What an intersection can be -/

/-- What the intersection `v` of two sets can be. With the empty set it is empty; with a point it is
empty or one of the two sets, and a point; with a segment it is empty, a point or a segment. Only
two lines with a slope have one in common, and only two vertical lines a vertical one, and then it
is one of the two. -/
structure Value.Narrows (v a b : Value α) : Prop where
  of_empty : a = .empty ∨ b = .empty → v = .empty
  of_point : (∃ p, a = .point p) ∨ (∃ p, b = .point p) →
    v = .empty ∨ (∃ p, v = .point p) ∧ (v = a ∨ v = b)
  of_segment : (∃ s, a = .segment s) ∨ (∃ s, b = .segment s) →
    v = .empty ∨ (∃ p, v = .point p) ∨ ∃ s, v = .segment s
  of_eq_line : ∀ l, v = .line l → (∃ k, a = .line k) ∧ (∃ k, b = .line k) ∧ (v = a ∨ v = b)
  of_eq_vertical : ∀ w, v = .vertical w →
    (∃ u, a = .vertical u) ∧ (∃ u, b = .vertical u) ∧ (v = a ∨ v = b)

/-- Whether a value is a set of more than one point. -/
def Value.IsStretch : Value α → Prop
  | line _ | vertical _ | segment _ => True
  | _ => False

/-- Whether a value is nothing, a point or a segment. -/
def Value.IsPiece (v : Value α) : Prop := v.IsDot ∨ ∃ s, v = .segment s

namespace Value.Narrows

variable {a b v : Value α}

theorem symm (h : v.Narrows a b) : v.Narrows b a where
  of_empty hempty := h.of_empty hempty.symm
  of_point hpoint := (h.of_point hpoint.symm).imp id fun ⟨hv, heq⟩ => ⟨hv, heq.symm⟩
  of_segment hsegment := h.of_segment hsegment.symm
  of_eq_line l hl := by
    obtain ⟨ha, hb, heq⟩ := h.of_eq_line l hl
    exact ⟨hb, ha, heq.symm⟩
  of_eq_vertical w hw := by
    obtain ⟨ha, hb, heq⟩ := h.of_eq_vertical w hw
    exact ⟨hb, ha, heq.symm⟩

/-- The empty set is always narrow enough. -/
theorem nothing (a b : Value α) : Narrows .empty a b :=
  ⟨fun _ => rfl, fun _ => .inl rfl, fun _ => .inl rfl, nofun, nofun⟩

/-- One of the sets, if it is a point. -/
theorem operand {p : Point α} (ha : a ≠ .empty) (hb : b ≠ .empty)
    (h : point p = a ∨ point p = b) : Narrows (.point p) a b where
  of_empty := by
    rintro (rfl | rfl)
    · exact absurd rfl ha
    · exact absurd rfl hb
  of_point _ := .inr ⟨⟨p, rfl⟩, h⟩
  of_segment _ := .inr (.inl ⟨p, rfl⟩)
  of_eq_line := nofun
  of_eq_vertical := nofun

/-- A piece of two sets of more than one point. -/
theorem piece (ha : a.IsStretch) (hb : b.IsStretch) (hv : v.IsPiece) : v.Narrows a b where
  of_empty := by
    rintro (rfl | rfl)
    · exact ha.elim
    · exact hb.elim
  of_point := by
    rintro (⟨p, rfl⟩ | ⟨p, rfl⟩)
    · exact ha.elim
    · exact hb.elim
  of_segment _ := by
    rcases hv with hdot | hsegment
    · cases v with
      | empty => exact .inl rfl
      | point p => exact .inr (.inl ⟨p, rfl⟩)
      | _ => exact hdot.elim
    · exact .inr (.inr hsegment)
  of_eq_line := by
    rintro l rfl
    rcases hv with hdot | ⟨s, hs⟩
    · exact hdot.elim
    · cases hs
  of_eq_vertical := by
    rintro w rfl
    rcases hv with hdot | ⟨s, hs⟩
    · exact hdot.elim
    · cases hs

end Value.Narrows

/-! ## Counting calls -/

/-- Whether an event reports the beginning of a call. -/
def Event.begins : Event α → Bool
  | enter _ _ => true
  | _ => false

/-- Whether a run reports the beginnings of at most `n` calls. -/
def Traced.CallsAtMost (n : Nat) (run : Traced α β) : Prop :=
  (run .debug).2.countP Event.begins ≤ n

namespace Traced.CallsAtMost

variable {run : Traced α β} {m n : Nat}

theorem mono (h : run.CallsAtMost m) (hle : m ≤ n) : run.CallsAtMost n := Nat.le_trans h hle

theorem pure (b : β) : (Pure.pure b : Traced α β).CallsAtMost n := Nat.zero_le n

theorem fail (fault : Fault) : (Traced.fail fault : Traced α β).CallsAtMost n := Nat.zero_le n

theorem bind {next : β → Traced α γ} (h : run.CallsAtMost m)
    (hnext : ∀ b, (next b).CallsAtMost n) : (run >>= next).CallsAtMost (m + n) := by
  unfold CallsAtMost at h hnext ⊢
  show (andThen run next .debug).2.countP Event.begins ≤ m + n
  cases hrun : run .debug with
  | mk first events =>
    simp only [hrun] at h
    cases first with
    | error fault =>
      simp only [andThen, hrun]
      omega
    | ok b =>
      have hb := hnext b
      simp only [andThen, hrun, List.countP_append]
      omega

/-- A call adds itself to the calls of its body. -/
theorem call {routine : Routine} {arguments : List (Argument α)} {view : β → Datum α}
    (h : run.CallsAtMost n) : (Traced.call routine arguments view run).CallsAtMost (n + 1) := by
  unfold CallsAtMost at h ⊢
  unfold Traced.call
  rw [if_pos (by decide)]
  split
  · cases hrun : run .debug with
    | mk first events =>
      simp only [hrun] at h
      cases first with
      | error fault => simpa [List.countP_cons, Event.begins] using h
      | ok b =>
        dsimp only
        split
        · simpa [List.countP_cons, Event.begins] using h
        · simpa [List.countP_cons, Event.begins] using h
  · exact Nat.zero_le _

end Traced.CallsAtMost

variable [Scalar α]

/-- What a line shares with a line. -/
theorem Value.Narrows.shared {l k : Straight α} {v : Value α} (h : l.Shares k v) :
    v.Narrows k.toValue l.toValue := by
  have stretch (m : Straight α) : m.toValue.IsStretch := by cases m <;> trivial
  rcases h with hdot | ⟨rfl, hagrees⟩
  · exact Narrows.piece (stretch k) (stretch l) (.inl hdot)
  · cases l with
    | line l =>
      cases k with
      | line k => exact ⟨nofun, nofun, nofun, fun _ _ => ⟨⟨k, rfl⟩, ⟨l, rfl⟩, .inr rfl⟩, nofun⟩
      | vertical w => exact hagrees.elim
    | vertical w =>
      cases k with
      | line k => exact hagrees.elim
      | vertical u => exact ⟨nofun, nofun, nofun, nofun, fun _ _ => ⟨⟨u, rfl⟩, ⟨w, rfl⟩, .inr rfl⟩⟩

/-! ## Exchanging sets of different kinds -/

/-- Two sets of different kinds are asked the same questions in either order, with the same result:
no law of arithmetic is used. -/
theorem Decided.intersect_comm {a b : Value α} (ha : a.IsConcrete) (hb : b.IsConcrete)
    (hkind : a.kind ≠ b.kind) : intersect a b = intersect b a := by
  cases a with
  | placeholder => exact absurd rfl ha
  | empty =>
    cases b with
    | placeholder => exact absurd rfl hb
    | _ => rfl
  | point p =>
    cases b with
    | placeholder => exact absurd rfl hb
    | point q => exact absurd rfl hkind
    | _ => rfl
  | line l =>
    cases b with
    | placeholder => exact absurd rfl hb
    | line k => exact absurd rfl hkind
    | _ => rfl
  | vertical v =>
    cases b with
    | placeholder => exact absurd rfl hb
    | vertical w => exact absurd rfl hkind
    | _ => rfl
  | segment s =>
    cases b with
    | placeholder => exact absurd rfl hb
    | segment t => exact absurd rfl hkind
    | _ => rfl

theorem Value.result_intersect_comm {a b : Value α} (ha : a.IsConcrete) (hb : b.IsConcrete)
    (hkind : a.kind ≠ b.kind) : (a.intersect b).result = (b.intersect a).result := by
  rw [← Decided.result_intersect, Decided.intersect_comm ha hb hkind, Decided.result_intersect]

/-- Intersecting two sets has the same result at every level. -/
theorem Value.intersect_fst {a b : Value α} (ha : a.IsConcrete) (hb : b.IsConcrete)
    (level : Level) : (a.intersect b level).1 = (a.intersect b).result :=
  ((Discipline.steady α).run_intersect ha.obeys hb.obeys).steady.fst_eq level

/-- Two sets of different kinds have one intersection, the same in every coordinate whichever of the
two comes first. -/
theorem intersect_comm_of_kind_ne (a b : Value α) (ha : a.IsConcrete) (hb : b.IsConcrete)
    (hkind : a.kind ≠ b.kind) (level : Level) :
    ∃ v, (a.intersect b level).1 = .ok v ∧ (b.intersect a level).1 = .ok v := by
  obtain ⟨v, hv, _⟩ := Value.exists_intersect ha hb
  refine ⟨v, ?_, ?_⟩
  · rw [Value.intersect_fst ha hb, hv]
  · rw [Value.intersect_fst hb ha, ← Value.result_intersect_comm ha hb hkind, hv]

/-- A segment whose ends are out of order, with coordinates that are infinite or no number. -/
def Segment.astray : Segment Float := ⟨7, 1 / 0, -2, 0 / 0⟩

/-- A line of infinite slope. -/
def Line.astray : Line Float := ⟨1 / 0, 3⟩

theorem intersect_comm_of_kind_ne_astray :
    (Value.segment Segment.astray).IsConcrete ∧ (Value.line Line.astray).IsConcrete ∧
      (Value.segment Segment.astray).kind ≠ (Value.line Line.astray).kind ∧
      ∃ v, ((Value.segment Segment.astray).intersect (.line .astray) .debug).1 = .ok v ∧
        ((Value.line Line.astray).intersect (.segment .astray) .debug).1 = .ok v := by
  have hsegment : (Value.segment Segment.astray).IsConcrete := nofun
  have hline : (Value.line Line.astray).IsConcrete := nofun
  have hkind : (Value.segment Segment.astray).kind ≠ (Value.line Line.astray).kind := by
    decide +kernel
  exact ⟨hsegment, hline, hkind, intersect_comm_of_kind_ne _ _ hsegment hline hkind .debug⟩

/-! ## Kinds of results -/

namespace Point

/-- A point meets a line in itself or nowhere. -/
theorem exists_intersectStraight (p : Point α) (l : Straight α) :
    ∃ v, (p.intersectStraight l).result = .ok v ∧ (v = .point p ∨ v = .empty) := by
  cases l with
  | line l => exact ⟨p.atLine l, rfl, ite_eq_or_eq _ _ _⟩
  | vertical w => exact ⟨p.atVertical w, rfl, ite_eq_or_eq _ _ _⟩

/-- A point meets a segment in itself or nowhere. -/
theorem exists_meetSegment (p : Point α) (s : Segment α) :
    ∃ v, (p.meetSegment s).result = .ok v ∧ (v = .point p ∨ v = .empty) := by
  obtain ⟨v, hv, hcases⟩ := p.exists_intersectStraight s.support
  rw [meetSegment, Segment.result_meetBy, hv]
  rcases hcases with rfl | rfl
  · exact ⟨p.within s, rfl, ite_eq_or_eq _ _ _⟩
  · exact ⟨.empty, rfl, .inr rfl⟩

/-- The intersection of a point with a set. -/
theorem exists_narrows (p : Point α) {b : Value α} (hb : b.IsConcrete) :
    ∃ v, ((Value.point p).intersect b).result = .ok v ∧ v.Narrows (.point p) b := by
  have itself {v b : Value α} (hb : b ≠ .empty) (h : v = .point p ∨ v = .empty) :
      v.Narrows (.point p) b := by
    rcases h with rfl | rfl
    · exact .operand nofun hb (.inl rfl)
    · exact .nothing _ _
  cases b with
  | placeholder => exact absurd rfl hb
  | empty => exact ⟨.empty, rfl, .nothing _ _⟩
  | point q =>
    refine ⟨q.atPoint p, rfl, ?_⟩
    unfold atPoint
    split
    · exact .operand nofun nofun (.inr rfl)
    · exact .nothing _ _
  | line l =>
    obtain ⟨v, hv, hcases⟩ := p.exists_intersectStraight (.line l)
    exact ⟨v, hv, itself nofun hcases⟩
  | vertical w =>
    obtain ⟨v, hv, hcases⟩ := p.exists_intersectStraight (.vertical w)
    exact ⟨v, hv, itself nofun hcases⟩
  | segment s =>
    obtain ⟨v, hv, hcases⟩ := p.exists_meetSegment s
    exact ⟨v, hv, itself nofun hcases⟩

end Point

/-- The intersection of two lines. -/
theorem Straight.exists_narrows (l k : Straight α) :
    ∃ v, (l.toValue.intersect k.toValue).result = .ok v ∧ v.Narrows l.toValue k.toValue := by
  cases l with
  | line l =>
    obtain ⟨v, hv, hshares⟩ := (Discipline.total α).run_meetLine k l
    refine ⟨v, ?_, .shared hshares⟩
    cases k <;> exact hv
  | vertical w =>
    obtain ⟨v, hv, hshares⟩ := (Discipline.total α).run_meetVertical k w
    refine ⟨v, ?_, .shared hshares⟩
    cases k <;> exact hv

namespace Segment

/-- The intersection of a segment with a line. -/
theorem exists_narrows (s : Segment α) (l : Straight α) :
    ∃ v, ((Value.segment s).intersect l.toValue).result = .ok v ∧
      v.Narrows (.segment s) l.toValue := by
  obtain ⟨v, hv, hshares⟩ := (Discipline.total α).run_meetSegment l (s := s) trivial
  have hpiece : v.IsPiece := hshares.imp id fun ⟨heq, _⟩ => ⟨s, heq⟩
  cases l with
  | line l => exact ⟨v, hv, .piece trivial trivial hpiece⟩
  | vertical w => exact ⟨v, hv, .piece trivial trivial hpiece⟩

/-- What two segments of one line have in common is a piece. -/
theorem isPiece_common (t s : Segment α) : (t.common s).IsPiece := by
  have isPiece_overlap (upright : Bool) (first second : Segment α) :
      (overlap upright first second).IsPiece := by
    unfold overlap
    split
    · exact .inl trivial
    · split
      · exact .inl trivial
      · split <;> exact .inr ⟨_, rfl⟩
  unfold common
  dsimp only
  split <;> exact isPiece_overlap _ _ _

/-- The intersection of two segments. -/
theorem exists_isPiece (s t : Segment α) :
    ∃ v, ((Value.segment s).intersect (.segment t)).result = .ok v ∧ v.IsPiece := by
  show (Discipline.total α).Run (t.meetSegment s) Value.IsPiece
  refine (Discipline.total α).run_meetBy (Q := t.Shares s.support) trivial trivial ?_ ?_ ?_
  · rw [intersectStraight]
    exact (Discipline.total α).call_pair (by simp) trivial s.support.obeys_toValue
      (fun _ h => h.obeys trivial) ((Discipline.total α).run_meetSegment s.support trivial)
  · -- the line through `s` cuts `t` in a point or leaves all of it
    rintro r (hdot | ⟨rfl, _⟩)
    · exact (Discipline.total α).imp ((Discipline.total α).run_clip_dot hdot trivial) fun _ => .inl
    · exact ⟨t.common s, rfl, isPiece_common t s⟩
  · rintro r (hdot | ⟨u, rfl⟩)
    · exact hdot.obeys
    · trivial

end Segment

/-- Any two sets have an intersection, and it is of no greater kind than they are. -/
theorem Value.exists_narrows {a b : Value α} (ha : a.IsConcrete) (hb : b.IsConcrete) :
    ∃ v, (a.intersect b).result = .ok v ∧ v.Narrows a b := by
  -- of two sets of different kinds it is enough to have the one that is narrower come first
  have exchanged {a b : Value α} (ha : a.IsConcrete) (hb : b.IsConcrete) (hkind : a.kind ≠ b.kind)
      (h : ∃ v, (b.intersect a).result = .ok v ∧ v.Narrows b a) :
      ∃ v, (a.intersect b).result = .ok v ∧ v.Narrows a b := by
    obtain ⟨v, hv, hnarrows⟩ := h
    exact ⟨v, (result_intersect_comm ha hb hkind).trans hv, hnarrows.symm⟩
  cases a with
  | placeholder => exact absurd rfl ha
  | empty => exact ⟨.empty, rfl, .nothing _ _⟩
  | point p => exact p.exists_narrows hb
  | line l =>
    cases b with
    | placeholder => exact absurd rfl hb
    | empty => exact ⟨.empty, rfl, .nothing _ _⟩
    | point p => exact exchanged ha hb (by simp [kind]) (p.exists_narrows ha)
    | line k => exact Straight.exists_narrows (.line l) (.line k)
    | vertical w => exact Straight.exists_narrows (.line l) (.vertical w)
    | segment s => exact exchanged ha hb (by simp [kind]) (s.exists_narrows (.line l))
  | vertical w =>
    cases b with
    | placeholder => exact absurd rfl hb
    | empty => exact ⟨.empty, rfl, .nothing _ _⟩
    | point p => exact exchanged ha hb (by simp [kind]) (p.exists_narrows ha)
    | line l => exact Straight.exists_narrows (.vertical w) (.line l)
    | vertical u => exact Straight.exists_narrows (.vertical w) (.vertical u)
    | segment s => exact exchanged ha hb (by simp [kind]) (s.exists_narrows (.vertical w))
  | segment s =>
    cases b with
    | placeholder => exact absurd rfl hb
    | empty => exact ⟨.empty, rfl, .nothing _ _⟩
    | point p => exact exchanged ha hb (by simp [kind]) (p.exists_narrows ha)
    | line l => exact s.exists_narrows (.line l)
    | vertical w => exact s.exists_narrows (.vertical w)
    | segment t =>
      obtain ⟨v, hv, hpiece⟩ := s.exists_isPiece t
      exact ⟨v, hv, .piece trivial trivial hpiece⟩

/-! ## Calls of an intersection -/

section Calls

open Traced

theorem Straight.callsAtMost_meetPoint (l : Straight α) (p : Point α) :
    (l.meetPoint p).CallsAtMost 2 := by
  cases l with
  | line l => exact .call (.call (.pure _))
  | vertical w => exact .call (.call (.pure _))

theorem Straight.callsAtMost_meetLine (l : Straight α) (k : Line α) :
    (l.meetLine k).CallsAtMost 2 := by
  cases l with
  | line l => exact .call (.pure _)
  | vertical w => exact .call (.call (.pure _))

theorem Straight.callsAtMost_meetVertical (l : Straight α) (v : Vertical α) :
    (l.meetVertical v).CallsAtMost 2 := by
  cases l with
  | line l => exact .call (.pure _)
  | vertical w => exact .call (.pure _)

theorem Segment.callsAtMost_checkVertical (s : Segment α) : s.checkVertical.CallsAtMost 1 :=
  .call (.pure _)

theorem Segment.callsAtMost_lineThrough (s : Segment α) : s.lineThrough.CallsAtMost 2 :=
  .call (.bind (n := 0) s.callsAtMost_checkVertical fun _ => .pure _)

theorem Value.callsAtMost_clip (v : Value α) (s : Segment α) : (v.clip s).CallsAtMost 2 := by
  cases v with
  | placeholder => exact .call (.fail _)
  | segment t =>
    rw [clip_segment]
    exact .call (.bind (n := 0) t.callsAtMost_checkVertical fun _ => .pure _)
  | _ => exact .call (.pure _)

namespace Segment

/-- A segment meets a value in five calls more than the line through it. -/
theorem callsAtMost_meetBy (s : Segment α) (v : Value α)
    {intersect : Straight α → Traced α (Value α)} {n : Nat}
    (h : ∀ l, (intersect l).CallsAtMost n) : (s.meetBy v intersect).CallsAtMost (n + 5) := by
  have hbody : (do
      let line ← s.lineThrough
      let result ← intersect line
      result.clip s).CallsAtMost (2 + (n + 2)) :=
    .bind s.callsAtMost_lineThrough fun l => .bind (h l) fun r => r.callsAtMost_clip s
  exact (CallsAtMost.call hbody).mono (by omega)

theorem callsAtMost_point_meetSegment (p : Point α) (s : Segment α) :
    (p.meetSegment s).CallsAtMost 8 :=
  s.callsAtMost_meetBy _ fun l => .call (l.callsAtMost_meetPoint p)

theorem callsAtMost_straight_meetSegment (l : Straight α) (s : Segment α) :
    (l.meetSegment s).CallsAtMost 8 := by
  cases l with
  | line l => exact s.callsAtMost_meetBy _ fun k => .call (k.callsAtMost_meetLine l)
  | vertical w => exact s.callsAtMost_meetBy _ fun k => .call (k.callsAtMost_meetVertical w)

/-- Two segments take two rounds. -/
theorem callsAtMost_meetSegment (t s : Segment α) : (t.meetSegment s).CallsAtMost 14 :=
  s.callsAtMost_meetBy _ fun l => .call (callsAtMost_straight_meetSegment l t)

end Segment

namespace Value

theorem callsAtMost_meetPoint (v : Value α) (p : Point α) : (v.meetPoint p).CallsAtMost 9 := by
  cases v with
  | empty => exact .call (.pure _)
  | point q => exact .call (.pure _)
  | line l => exact .call (.call (.pure _))
  | vertical w => exact .call (.call (.pure _))
  | segment s => exact .call (Segment.callsAtMost_point_meetSegment p s)
  | placeholder =>
    dsimp only [meetPoint]
    exact .call (.fail _)

theorem callsAtMost_meetLine (v : Value α) (l : Line α) : (v.meetLine l).CallsAtMost 9 := by
  cases v with
  | empty => exact .call (.pure _)
  | point q => exact .call (.pure _)
  | line k => exact .call (.pure _)
  | vertical w => exact .call (.call (.pure _))
  | segment s => exact .call (Segment.callsAtMost_straight_meetSegment (.line l) s)
  | placeholder =>
    dsimp only [meetLine]
    exact .call (.fail _)

theorem callsAtMost_meetVertical (v : Value α) (w : Vertical α) :
    (v.meetVertical w).CallsAtMost 9 := by
  cases v with
  | empty => exact .call (.pure _)
  | point q => exact .call (.pure _)
  | line l => exact .call (.pure _)
  | vertical u => exact .call (.pure _)
  | segment s => exact .call (Segment.callsAtMost_straight_meetSegment (.vertical w) s)
  | placeholder =>
    dsimp only [meetVertical]
    exact .call (.fail _)

theorem callsAtMost_meetSegment (v : Value α) (s : Segment α) :
    (v.meetSegment s).CallsAtMost 14 := by
  cases v with
  | empty => exact .call (.pure _)
  | point p => exact (Segment.callsAtMost_point_meetSegment p s).mono (by omega)
  | line l => exact (Segment.callsAtMost_straight_meetSegment (.line l) s).mono (by omega)
  | vertical w => exact (Segment.callsAtMost_straight_meetSegment (.vertical w) s).mono (by omega)
  | segment t => exact t.callsAtMost_meetSegment s
  | placeholder => exact s.callsAtMost_meetBy .placeholder fun l => .call (.fail _)

/-- An intersection ends after sixteen calls at most. -/
theorem callsAtMost_intersect (a b : Value α) : (a.intersect b).CallsAtMost 16 := by
  refine .call (.call ?_)
  cases a with
  | empty => exact .call (.pure _)
  | point p => exact (b.callsAtMost_meetPoint p).mono (by omega)
  | line l => exact (b.callsAtMost_meetLine l).mono (by omega)
  | vertical w => exact (b.callsAtMost_meetVertical w).mono (by omega)
  | segment s => exact b.callsAtMost_meetSegment s
  | placeholder => exact .fail _

end Value

end Calls

/-! ## Quotients -/

/-- Scalars with another division. -/
@[reducible]
def Scalar.dividing (quotient : α → α → α) : Scalar α :=
  { (inferInstance : Scalar α) with div := quotient }

section Quotients

-- Only differences of scalars that are not close are divided by.
variable {quotient : α → α → α} (h : ∀ x u v : α,
  Scalar.close u v = false ∨ Scalar.close v u = false → quotient x (u - v) = x / (u - v))
include h

theorem Line.atLine_dividing (l k : Line α) :
    @Line.atLine α (.dividing quotient) l k = l.atLine k := by
  unfold Line.atLine
  by_cases hclose : close l.slope k.slope = true
  · rw [if_pos hclose]
    exact if_pos hclose
  · rw [if_neg hclose, ← h _ _ _ (.inl (Bool.not_eq_true _ ▸ hclose))]
    exact if_neg hclose

theorem Segment.support_dividing (s : Segment α) :
    @Segment.support α (.dividing quotient) s = s.support := by
  unfold Segment.support
  by_cases hvertical : s.isVertical = true
  · rw [if_pos hvertical]
    exact if_pos hvertical
  · rw [if_neg hvertical, ← h _ _ _ (.inr (Bool.not_eq_true _ ▸ hvertical))]
    exact if_neg hvertical

theorem Straight.meetLine_dividing (l : Straight α) (k : Line α) :
    @Straight.meetLine α (.dividing quotient) l k = l.meetLine k := by
  cases l with
  | line l => exact congrArg (fun v => Traced.call _ _ _ (pure v)) (l.atLine_dividing h k)
  | vertical w => rfl

theorem Segment.lineThrough_dividing (s : Segment α) :
    @Segment.lineThrough α (.dividing quotient) s = s.lineThrough :=
  congrArg (fun l => Traced.call _ _ _ (s.checkVertical >>= fun _ => pure l))
    (s.support_dividing h)

/-- A value meets a segment with the same reports if it meets lines so. -/
theorem Segment.meetBy_dividing (s : Segment α) (v : Value α)
    {first second : Straight α → Traced α (Value α)} (heq : ∀ l, first l = second l) :
    @Segment.meetBy α (.dividing quotient) s v first = s.meetBy v second := by
  obtain rfl : first = second := funext heq
  unfold Segment.meetBy
  rw [s.lineThrough_dividing h]
  rfl

theorem Point.meetSegment_dividing (p : Point α) (s : Segment α) :
    @Point.meetSegment α (.dividing quotient) p s = p.meetSegment s :=
  s.meetBy_dividing h (.point p) fun _ => rfl

theorem Straight.meetSegment_dividing (l : Straight α) (s : Segment α) :
    @Straight.meetSegment α (.dividing quotient) l s = l.meetSegment s := by
  cases l with
  | line l =>
    exact s.meetBy_dividing h (.line l) fun k =>
      congrArg (Traced.call _ _ _) (k.meetLine_dividing h l)
  | vertical w => exact s.meetBy_dividing h (.vertical w) fun _ => rfl

theorem Segment.meetSegment_dividing (t s : Segment α) :
    @Segment.meetSegment α (.dividing quotient) t s = t.meetSegment s :=
  s.meetBy_dividing h (.segment t) fun l =>
    congrArg (Traced.call _ _ _) (l.meetSegment_dividing h t)

namespace Value

theorem meetPoint_dividing (v : Value α) (p : Point α) :
    @meetPoint α (.dividing quotient) v p = v.meetPoint p := by
  cases v with
  | segment s => exact congrArg (Traced.call _ _ _) (p.meetSegment_dividing h s)
  | _ => rfl

theorem meetLine_dividing (v : Value α) (l : Line α) :
    @meetLine α (.dividing quotient) v l = v.meetLine l := by
  cases v with
  | line k => exact Straight.meetLine_dividing h (.line k) l
  | segment s => exact congrArg (Traced.call _ _ _) (Straight.meetSegment_dividing h (.line l) s)
  | _ => rfl

theorem meetVertical_dividing (v : Value α) (w : Vertical α) :
    @meetVertical α (.dividing quotient) v w = v.meetVertical w := by
  cases v with
  | segment s =>
    exact congrArg (Traced.call _ _ _) (Straight.meetSegment_dividing h (.vertical w) s)
  | _ => rfl

theorem meetSegment_dividing (v : Value α) (s : Segment α) :
    @meetSegment α (.dividing quotient) v s = v.meetSegment s := by
  cases v with
  | empty => rfl
  | point p => exact p.meetSegment_dividing h s
  | line l => exact Straight.meetSegment_dividing h (.line l) s
  | vertical w => exact Straight.meetSegment_dividing h (.vertical w) s
  | segment t => exact t.meetSegment_dividing h s
  | placeholder => exact s.meetBy_dividing h .placeholder fun _ => rfl

/-- What other quotients are makes no difference to an intersection, neither to its result nor to
its reports. -/
theorem intersect_dividing (a b : Value α) :
    @intersect α (.dividing quotient) a b = a.intersect b := by
  have hdispatch : @dispatch α (.dividing quotient) a b = a.dispatch b := by
    cases a with
    | empty => rfl
    | point p => exact congrArg (Traced.call _ _ _) (b.meetPoint_dividing h p)
    | line l => exact congrArg (Traced.call _ _ _) (b.meetLine_dividing h l)
    | vertical w => exact congrArg (Traced.call _ _ _) (b.meetVertical_dividing h w)
    | segment s => exact congrArg (Traced.call _ _ _) (b.meetSegment_dividing h s)
    | placeholder => rfl
  exact congrArg (Traced.call _ _ _) hdispatch

end Value

end Quotients

/-- Another division that only differs in quotients by zero divides alike by the difference of
scalars that are not close. -/
theorem quotient_sub {quotient : Float → Float → Float}
    (h : ∀ x y, eq y zero = false → quotient x y = x / y) (x u v : Float)
    (hclose : close u v = false ∨ close v u = false) : quotient x (u - v) = x / (u - v) := by
  refine h x (u - v) (sub_ne_zero_of_not_close ?_)
  exact hclose.elim id fun h => (Double.close_comm u v).trans h

/-- Any two sets have an intersection, of no greater kind than they are. It takes sixteen calls at
most, and nothing is divided by zero on the way: a quotient is shown in the report of the call that
makes it, and no report depends on what the quotients by zero are. -/
theorem intersect_narrows (a b : Value Float) (ha : a.IsConcrete) (hb : b.IsConcrete) :
    (∃ v, (∀ level, (a.intersect b level).1 = .ok v) ∧ v.Narrows a b) ∧
      (a.intersect b).CallsAtMost 16 ∧
      ∀ quotient : Float → Float → Float,
        (∀ x y, eq y zero = false → quotient x y = x / y) →
          @Value.intersect Float (.dividing quotient) a b = a.intersect b := by
  obtain ⟨v, hv, hnarrows⟩ := Value.exists_narrows ha hb
  refine ⟨⟨v, fun level => ?_, hnarrows⟩, a.callsAtMost_intersect b, fun quotient h => ?_⟩
  · rw [Value.intersect_fst ha hb, hv]
  · exact Value.intersect_dividing (quotient_sub h) a b

/-- Division with the result one for every quotient by zero. -/
def Scalar.quotientOrOne (x y : Float) : Float := if eq y zero = true then 1 else x / y

theorem intersect_narrows_astray :
    (Value.segment Segment.astray).IsConcrete ∧ (Value.line Line.astray).IsConcrete ∧
      (∃ v, (∀ level, ((Value.segment Segment.astray).intersect (.line .astray) level).1 = .ok v) ∧
        v.Narrows (.segment .astray) (.line .astray)) ∧
      ((Value.segment Segment.astray).intersect (.line .astray)).CallsAtMost 16 ∧
      @Value.intersect Float (.dividing quotientOrOne) (.segment .astray) (.line .astray) =
        (Value.segment Segment.astray).intersect (.line .astray) := by
  have hsegment : (Value.segment Segment.astray).IsConcrete := nofun
  have hline : (Value.line Line.astray).IsConcrete := nofun
  obtain ⟨hnarrows, hcalls, hdividing⟩ := intersect_narrows _ _ hsegment hline
  have hquotient (x y : Float) (h : eq y zero = false) : quotientOrOne x y = x / y := by
    simp [quotientOrOne, h]
  exact ⟨hsegment, hline, hnarrows, hcalls, hdividing quotientOrOne hquotient⟩

end Planar
