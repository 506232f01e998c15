import Planar.Expr.Printer
import Planar.Proofs.Number.SignedZero
import Planar.Proofs.Plane.Decisions
import Planar.Proofs.Run.Levels

/-!
# Evaluation and the sign of a zero

Trees that differ only in places and in the signs of zeros have values that differ only in the
signs of zeros, and both are printed the same.

* `Value.Alike`, `Expr.Alike` — the same value, the same tree up to places, apart from the signs of
  zeros;
* `Decided.follows_intersect`, `Value.Alike.shift` — the operations on values keep them alike;
* `Expr.Alike.eval` — a tree that has a value has an alike one after such a change;
* `Value.Alike.format_eq`, `Expr.Alike.program_eq` — alike values and trees have one text.
-/

namespace Planar

open Scalar

/-! ## Alike values -/

/-- Whether two points differ at most in the signs of zeros. -/
structure Point.Alike (p q : Point Float) : Prop where
  x : Planar.Alike p.x q.x
  y : Planar.Alike p.y q.y

/-- Whether two lines differ at most in the signs of zeros. -/
structure Line.Alike (l k : Line Float) : Prop where
  slope : Planar.Alike l.slope k.slope
  intercept : Planar.Alike l.intercept k.intercept

/-- Whether two vertical lines differ at most in the signs of zeros. -/
structure Vertical.Alike (v w : Vertical Float) : Prop where
  x : Planar.Alike v.x w.x

/-- Whether two segments differ at most in the signs of zeros. -/
structure Segment.Alike (s t : Segment Float) : Prop where
  x₁ : Planar.Alike s.x₁ t.x₁
  y₁ : Planar.Alike s.y₁ t.y₁
  x₂ : Planar.Alike s.x₂ t.x₂
  y₂ : Planar.Alike s.y₂ t.y₂

/-- Whether two lines of any direction differ at most in the signs of zeros. -/
inductive Straight.Alike : Straight Float → Straight Float → Prop where
  | line {l k : Line Float} (h : l.Alike k) : Alike (.line l) (.line k)
  | vertical {v w : Vertical Float} (h : v.Alike w) : Alike (.vertical v) (.vertical w)

/-- Whether two sets differ at most in the signs of zeros. -/
inductive Value.Alike : Value Float → Value Float → Prop where
  | empty : Alike .empty .empty
  | point {p q : Point Float} (h : p.Alike q) : Alike (.point p) (.point q)
  | line {l k : Line Float} (h : l.Alike k) : Alike (.line l) (.line k)
  | vertical {v w : Vertical Float} (h : v.Alike w) : Alike (.vertical v) (.vertical w)
  | segment {s t : Segment Float} (h : s.Alike t) : Alike (.segment s) (.segment t)

theorem Value.Alike.ite {c c' : Bool} (hc : c = c') {v v' w w' : Value Float} (hv : v.Alike v')
    (hw : w.Alike w') : (if c then v else w).Alike (if c' then v' else w') := by
  subst hc
  split
  · exact hv
  · exact hw

/-! ## Tests and steps on alike values -/

theorem Alike.pointClose_eq {x₁ y₁ x₂ y₂ x₁' y₁' x₂' y₂' : Float} (hx₁ : Alike x₁ x₁')
    (hy₁ : Alike y₁ y₁') (hx₂ : Alike x₂ x₂') (hy₂ : Alike y₂ y₂') :
    pointClose x₁ y₁ x₂ y₂ = pointClose x₁' y₁' x₂' y₂' := by
  rw [pointClose, pointClose, hx₁.close_eq hx₂, hy₁.close_eq hy₂]

theorem Alike.between_eq {v a b v' a' b' : Float} (hv : Alike v v') (ha : Alike a a')
    (hb : Alike b b') : between v a b = between v' a' b' := by
  have hwithin {low high low' high' : Float} (hlow : Alike low low') (hhigh : Alike high high') :
      (le (low - tolerance) v && le v (high + tolerance)) =
        (le (low' - tolerance) v' && le v' (high' + tolerance)) := by
    rw [(hlow.sub (.refl _)).le_eq hv, hv.le_eq (hhigh.add (.refl _))]
  unfold between ordered
  rw [ha.le_eq hb]
  cases le a' b' with
  | true => exact hwithin ha hb
  | false => exact hwithin hb ha

theorem Point.Alike.atPoint {p q p' q' : Point Float} (hp : p.Alike p') (hq : q.Alike q') :
    (p.atPoint q).Alike (p'.atPoint q') :=
  .ite (hp.x.pointClose_eq hp.y hq.x hq.y) (.point hp) .empty

theorem Point.Alike.atLine {p p' : Point Float} {l l' : Line Float} (hp : p.Alike p')
    (hl : l.Alike l') : (p.atLine l).Alike (p'.atLine l') :=
  .ite (hp.y.close_eq ((hl.slope.mul hp.x).add hl.intercept)) (.point hp) .empty

theorem Point.Alike.atVertical {p p' : Point Float} {v v' : Vertical Float} (hp : p.Alike p')
    (hv : v.Alike v') : (p.atVertical v).Alike (p'.atVertical v') :=
  .ite (hp.x.close_eq hv.x) (.point hp) .empty

theorem Point.Alike.within {p p' : Point Float} {s s' : Segment Float} (hp : p.Alike p')
    (hs : s.Alike s') : (p.within s).Alike (p'.within s') := by
  refine .ite ?_ (.point hp) .empty
  rw [hp.x.between_eq hs.x₁ hs.x₂, hp.y.between_eq hs.y₁ hs.y₂]

theorem Line.Alike.atLine {l k l' k' : Line Float} (hl : l.Alike l') (hk : k.Alike k') :
    (l.atLine k).Alike (l'.atLine k') := by
  unfold Line.atLine
  rw [← hl.slope.close_eq hk.slope, ← hl.intercept.close_eq hk.intercept]
  split
  · exact .ite rfl (.line hl) .empty
  · next hclose =>
    -- the slopes are not close, so the quotient is not by a zero
    have hx := (hk.intercept.sub hl.intercept).quotient hl.slope hk.slope
      (Bool.not_eq_true _ ▸ hclose)
    exact .point ⟨hx, (hl.slope.mul hx).add hl.intercept⟩

theorem Line.Alike.atVertical {l l' : Line Float} {v v' : Vertical Float} (hl : l.Alike l')
    (hv : v.Alike v') : (l.atVertical v).Alike (l'.atVertical v') :=
  .point ⟨hv.x, (hl.slope.mul hv.x).add hl.intercept⟩

theorem Vertical.Alike.atVertical {v w v' w' : Vertical Float} (hv : v.Alike v')
    (hw : w.Alike w') : (v.atVertical w).Alike (v'.atVertical w') :=
  .ite (hv.x.close_eq hw.x) (.vertical hv) .empty

namespace Segment.Alike

variable {s t s' t' : Segment Float}

theorem swap (hs : s.Alike s') : s.swap.Alike s'.swap := ⟨hs.x₂, hs.y₂, hs.x₁, hs.y₁⟩

theorem isVertical_eq (hs : s.Alike s') : s.isVertical = s'.isVertical := hs.x₁.close_eq hs.x₂

theorem support (hs : s.Alike s') : s.support.Alike s'.support := by
  unfold Segment.support
  rw [← hs.isVertical_eq]
  split
  · exact .vertical ⟨hs.x₁⟩
  · next hvertical =>
    have hclose : close s.x₂ s.x₁ = false := by
      rw [Double.close_comm]
      exact Bool.not_eq_true _ ▸ hvertical
    have hslope := (hs.y₂.sub hs.y₁).quotient hs.x₂ hs.x₁ hclose
    exact .line ⟨hslope, hs.y₁.sub (hslope.mul hs.x₁)⟩

theorem start (hs : s.Alike s') (upright : Bool) :
    Planar.Alike (s.start upright) (s'.start upright) := by
  cases upright with
  | true => exact hs.y₁
  | false => exact hs.x₁

theorem stop (hs : s.Alike s') (upright : Bool) :
    Planar.Alike (s.stop upright) (s'.stop upright) := by
  cases upright with
  | true => exact hs.y₂
  | false => exact hs.x₂

theorem overlap (hs : s.Alike s') (ht : t.Alike t') (upright : Bool) :
    (Segment.overlap upright s t).Alike (Segment.overlap upright s' t') := by
  have hstop := hs.stop upright
  have hstart := ht.start upright
  refine .ite (hstop.close_eq hstart) (.point ⟨hs.x₂, hs.y₂⟩) ?_
  refine .ite (hstop.lt_eq hstart) .empty ?_
  exact .ite ((ht.stop upright).lt_eq hstop) (.segment ht)
    (.segment ⟨ht.x₁, ht.y₁, hs.x₂, hs.y₂⟩)

theorem common (hs : s.Alike s') (ht : t.Alike t') : (s.common t).Alike (s'.common t') := by
  unfold Segment.common
  rw [← hs.isVertical_eq]
  exact .ite ((hs.start _).lt_eq (ht.start _)) (hs.overlap ht _) (ht.overlap hs _)

/-- Putting alike segments in order gives alike values. -/
theorem amended (hs : s.Alike s') :
    (s.amended?.getD (.segment s)).Alike (s'.amended?.getD (.segment s')) := by
  unfold Segment.amended?
  rw [hs.x₁.pointClose_eq hs.y₁ hs.x₂ hs.y₂, hs.x₁.close_eq hs.x₂, hs.y₁.lt_eq hs.y₂,
    hs.x₂.lt_eq hs.x₁]
  split
  · exact .point ⟨hs.x₁, hs.y₁⟩
  · split
    · split
      · exact .segment hs
      · exact .segment hs.swap
    · split
      · exact .segment hs.swap
      · exact .segment hs

end Segment.Alike

/-! ## Runs that follow each other -/

section Follows

variable {ε β γ β' γ' : Type} {R : β → γ → Prop} {S : β' → γ' → Prop}

/-- Whether a result follows another one: if the first is no fault, neither is the second, and what
they are is related. -/
def Follows (R : β → γ → Prop) (first : Except ε β) (second : Except ε γ) : Prop :=
  ∀ b, first = .ok b → ∃ c, second = .ok c ∧ R b c

theorem Follows.ok {b : β} {c : γ} (h : R b c) : Follows (ε := ε) R (.ok b) (.ok c) := by
  rintro _ ⟨⟩
  exact ⟨c, rfl, h⟩

theorem Follows.bind {first : Except ε β} {second : Except ε γ} {f : β → Except ε β'}
    {g : γ → Except ε γ'} (h : Follows R first second) (hf : ∀ b c, R b c → Follows S (f b) (g c)) :
    Follows S (first >>= f) (second >>= g) := by
  intro b' hb'
  cases first with
  | error fault => cases hb'
  | ok b =>
    obtain ⟨c, rfl, hc⟩ := h b rfl
    exact hf b c hc b' hb'

end Follows

namespace Decided

theorem follows_pointAtStraight {p p' : Point Float} {l l' : Straight Float} (hp : p.Alike p')
    (hl : l.Alike l') :
    Follows Value.Alike (pointAtStraight p l).result (pointAtStraight p' l').result := by
  cases hl with
  | line hl => exact .ok (hp.atLine hl)
  | vertical hv => exact .ok (hp.atVertical hv)

theorem follows_straightAtStraight {l k l' k' : Straight Float} (hl : l.Alike l')
    (hk : k.Alike k') :
    Follows Value.Alike (straightAtStraight l k).result (straightAtStraight l' k').result := by
  cases hl with
  | line hl =>
    cases hk with
    | line hk =>
      rw [result_straightAtLine, result_straightAtLine]
      exact .ok (hl.atLine hk)
    | vertical hv => exact .ok (hl.atVertical hv)
  | vertical hv =>
    cases hk with
    | line hk => exact .ok (hk.atVertical hv)
    | vertical hw => exact .ok (hv.atVertical hw)

theorem follows_clip {s s' : Segment Float} {v v' : Value Float} (hs : s.Alike s')
    (hv : v.Alike v') : Follows Value.Alike (clip s v).result (clip s' v').result := by
  rw [result_clip, result_clip]
  cases hv with
  | empty => exact .ok .empty
  | point hp => exact .ok (hp.within hs)
  | line _ => exact .ok (.segment hs)
  | vertical _ => exact .ok (.segment hs)
  | segment ht => exact .ok (ht.common hs)

theorem follows_atSegment {s s' : Segment Float} (hs : s.Alike s')
    {meet meet' : Straight Float → Decided Float (Value Float)}
    (hmeet : ∀ l l', l.Alike l' → Follows Value.Alike (meet l).result (meet' l').result) :
    Follows Value.Alike (atSegment s meet).result (atSegment s' meet').result := by
  simp only [atSegment, result_bind, result_lineThrough, ok_bind]
  exact (hmeet _ _ hs.support).bind fun _ _ hr => follows_clip hs hr

/-- The intersections of alike values are alike. -/
theorem follows_intersect {v w v' w' : Value Float} (hv : v.Alike v') (hw : w.Alike w') :
    Follows Value.Alike (intersect v w).result (intersect v' w').result := by
  cases hv with
  | empty => cases hw <;> exact .ok .empty
  | point hp =>
    cases hw with
    | empty => exact .ok .empty
    | point hq =>
      rw [intersect, intersect, result_pointAtPoint, result_pointAtPoint]
      exact .ok (hq.atPoint hp)
    | line hl => exact follows_pointAtStraight hp (.line hl)
    | vertical hv => exact follows_pointAtStraight hp (.vertical hv)
    | segment hs => exact follows_atSegment hs fun _ _ hl => follows_pointAtStraight hp hl
  | line hl =>
    cases hw with
    | empty => exact .ok .empty
    | point hp => exact follows_pointAtStraight hp (.line hl)
    | line hk => exact follows_straightAtStraight (.line hk) (.line hl)
    | vertical hv => exact follows_straightAtStraight (.line hl) (.vertical hv)
    | segment hs =>
      exact follows_atSegment hs fun _ _ hk => follows_straightAtStraight hk (.line hl)
  | vertical hv =>
    cases hw with
    | empty => exact .ok .empty
    | point hp => exact follows_pointAtStraight hp (.vertical hv)
    | line hl => exact follows_straightAtStraight (.line hl) (.vertical hv)
    | vertical hw => exact follows_straightAtStraight (.vertical hw) (.vertical hv)
    | segment hs =>
      exact follows_atSegment hs fun _ _ hk => follows_straightAtStraight hk (.vertical hv)
  | segment hs =>
    cases hw with
    | empty => exact .ok .empty
    | point hp => exact follows_atSegment hs fun _ _ hl => follows_pointAtStraight hp hl
    | line hl => exact follows_atSegment hs fun _ _ hk => follows_straightAtStraight hk (.line hl)
    | vertical hv =>
      exact follows_atSegment hs fun _ _ hk => follows_straightAtStraight hk (.vertical hv)
    | segment ht =>
      exact follows_atSegment hs fun _ _ hk => follows_atSegment ht fun _ _ hm =>
        follows_straightAtStraight hm hk

end Decided

theorem Value.Alike.shift {v v' : Value Float} {dx dy dx' dy' : Float} (hv : v.Alike v')
    (hx : Planar.Alike dx dx') (hy : Planar.Alike dy dy') :
    Follows Value.Alike (v.shift dx dy).result (v'.shift dx' dy').result := by
  cases hv with
  | empty => exact .ok .empty
  | point hp => exact .ok (.point ⟨hp.x.add hx, hp.y.add hy⟩)
  | line hl => exact .ok (.line ⟨hl.slope, (hl.intercept.add hy).sub (hl.slope.mul hx)⟩)
  | vertical hw => exact .ok (.vertical ⟨hw.x.add hx⟩)
  | segment hs =>
    exact .ok (.segment ⟨hs.x₁.add hx, hs.y₁.add hy, hs.x₂.add hx, hs.y₂.add hy⟩)

theorem Value.Alike.amended {v v' : Value Float} (h : v.Alike v') :
    (v.amended?.getD v).Alike (v'.amended?.getD v') := by
  cases h with
  | empty => exact .empty
  | point hp => exact .point hp
  | line hl => exact .line hl
  | vertical hw => exact .vertical hw
  | segment hs => exact hs.amended

/-! ## Alike trees -/

/-- Whether two trees differ at most in places and in the signs of zeros. -/
inductive Expr.Alike : Expr Float → Expr Float → Prop where
  | literal {v w : Value Float} {s t : Option Span} (h : v.Alike w) :
      Alike (.literal v s) (.literal w t)
  | var {name : String} {s t : Option Span} : Alike (.var name s) (.var name t)
  | intersect {a b a' b' : Expr Float} {s t : Option Span} (ha : Alike a a') (hb : Alike b b') :
      Alike (.intersect a b s) (.intersect a' b' t)
  | bind {name : String} {a b a' b' : Expr Float} {s t : Option Span} (ha : Alike a a')
      (hb : Alike b b') : Alike (.bind name a b s) (.bind name a' b' t)
  | shift {dx dy dx' dy' : Float} {a a' : Expr Float} {s t : Option Span}
      (hx : Planar.Alike dx dx') (hy : Planar.Alike dy dy') (ha : Alike a a') :
      Alike (.shift dx dy a s) (.shift dx' dy' a' t)

/-- Whether whatever is bound in one environment is bound alike in another. -/
def Env.Alike (env env' : Env Float) : Prop :=
  ∀ name v, env.get? name = some v → ∃ w, env'.get? name = some w ∧ v.Alike w

theorem Env.Alike.empty : Env.Alike .empty .empty := by
  intro name v hv
  cases hv

theorem Env.Alike.bind {env env' : Env Float} (h : env.Alike env') {v w : Value Float}
    (hv : v.Alike w) (name : String) : (env.bind name v).Alike (env'.bind name w) := by
  intro other u hu
  rw [Env.get?_bind] at hu ⊢
  split at hu
  · next heq =>
    cases hu
    exact ⟨w, if_pos heq, hv⟩
  · next hne =>
    rw [if_neg hne]
    exact h other u hu

namespace Expr.Alike

variable {e e' : Expr Float}

theorem normalized (h : e.Alike e') : e.normalized.Alike e'.normalized := by
  induction h with
  | literal hv => exact .literal hv.amended
  | var => exact .var
  | intersect _ _ iha ihb => exact .intersect iha ihb
  | bind _ _ iha ihb => exact .bind iha ihb
  | shift hx hy _ ih => exact .shift hx hy ih

/-- A tree that has a value has an alike value after its places and the signs of its zeros are
changed. -/
theorem eval (h : e.Alike e') {env env' : Env Float} (henv : env.Alike env') :
    Follows Value.Alike (e.eval env).result (e'.eval env').result := by
  induction h generalizing env env' with
  | literal hv => exact .ok hv
  | @var name s t =>
    simp only [Expr.eval, Traced.result_call, Traced.result_ofExcept, Env.lookup]
    intro v hv
    cases hget : env.get? name with
    | none => rw [hget] at hv; cases hv
    | some u =>
      rw [hget] at hv
      obtain rfl := Except.ok.inj hv
      obtain ⟨w, hw, halike⟩ := henv name u hget
      exact ⟨w, by rw [hw], halike⟩
  | intersect _ _ iha ihb =>
    simp only [Expr.eval, Traced.result_call, Traced.result_bind, ← Decided.result_intersect]
    exact (iha henv).bind fun _ _ hv => (ihb henv).bind fun _ _ hw =>
      Decided.follows_intersect hv hw
  | bind _ _ iha ihb =>
    simp only [Expr.eval, Traced.result_call, Traced.result_bind]
    exact (iha henv).bind fun _ _ hv => ihb (henv.bind hv _)
  | shift hx hy _ ih =>
    simp only [Expr.eval, Traced.result_call, Traced.result_bind]
    exact (ih henv).bind fun _ _ hv => hv.shift hx hy

end Expr.Alike

/-! ## Equal trees are alike -/

theorem Value.alike_of_equal {v w : Value Float} (h : v.equal w = true) : v.Alike w := by
  simp only [equal, agree] at h
  cases v with
  | placeholder => cases h
  | empty =>
    cases w with
    | empty => exact .empty
    | _ => simp [coordinates?, kind] at h
  | point p =>
    cases w with
    | point q =>
      obtain ⟨hx, hy⟩ : Scalar.eq p.x q.x = true ∧ Scalar.eq p.y q.y = true := by
        simpa [coordinates?, kind] using h
      exact .point ⟨alike_of_eq hx, alike_of_eq hy⟩
    | _ => simp [coordinates?, kind] at h
  | line l =>
    cases w with
    | line k =>
      obtain ⟨hm, hb⟩ : Scalar.eq l.slope k.slope = true ∧
          Scalar.eq l.intercept k.intercept = true := by
        simpa [coordinates?, kind] using h
      exact .line ⟨alike_of_eq hm, alike_of_eq hb⟩
    | _ => simp [coordinates?, kind] at h
  | vertical u =>
    cases w with
    | vertical w =>
      have hx : Scalar.eq u.x w.x = true := by simpa [coordinates?, kind] using h
      exact .vertical ⟨alike_of_eq hx⟩
    | _ => simp [coordinates?, kind] at h
  | segment s =>
    cases w with
    | segment t =>
      obtain ⟨hx₁, hy₁, hx₂, hy₂⟩ : Scalar.eq s.x₁ t.x₁ = true ∧ Scalar.eq s.y₁ t.y₁ = true ∧
          Scalar.eq s.x₂ t.x₂ = true ∧ Scalar.eq s.y₂ t.y₂ = true := by
        simpa [coordinates?, kind] using h
      exact .segment ⟨alike_of_eq hx₁, alike_of_eq hy₁, alike_of_eq hx₂, alike_of_eq hy₂⟩
    | _ => simp [coordinates?, kind] at h

/-- Trees that are equal up to places are alike. -/
theorem Expr.alike_of_equal {e e' : Expr Float} (h : e.equal e' = true) (hconcrete : e.IsConcrete) :
    e.Alike e' := by
  induction e generalizing e' with
  | literal v s =>
    cases e' with
    | literal w t => exact .literal (Value.alike_of_equal h)
    | _ => cases h
  | var name s =>
    cases e' with
    | var other t =>
      obtain rfl : name = other := eq_of_beq h
      exact .var
    | _ => cases h
  | intersect a b s iha ihb =>
    cases e' with
    | intersect a' b' t =>
      obtain ⟨ha, hb⟩ := Bool.and_eq_true_iff.1 h
      exact .intersect (iha ha hconcrete.1) (ihb hb hconcrete.2)
    | _ => cases h
  | bind name a b s iha ihb =>
    cases e' with
    | bind other a' b' t =>
      obtain ⟨hfirst, hb⟩ := Bool.and_eq_true_iff.1 h
      obtain ⟨hname, ha⟩ := Bool.and_eq_true_iff.1 hfirst
      obtain rfl : name = other := eq_of_beq hname
      exact .bind (iha ha hconcrete.1) (ihb hb hconcrete.2)
    | _ => cases h
  | shift dx dy a s ih =>
    cases e' with
    | shift dx' dy' a' t =>
      obtain ⟨hoffset, ha⟩ := Bool.and_eq_true_iff.1 h
      obtain ⟨hx, hy⟩ := Bool.and_eq_true_iff.1 hoffset
      exact .shift (alike_of_eq hx) (alike_of_eq hy) (ih ha hconcrete)
    | _ => cases h
  | placeholder => exact hconcrete.elim

/-! ## Texts of alike values and trees -/

theorem Alike.formatNumber_eq {x y : Float} (h : Alike x y) : formatNumber x = formatNumber y := by
  rcases h with heq | ⟨s, t, hx, hy⟩
  · have hdouble : Double.ofFloat x = Double.ofFloat y := by
      unfold Double.ofFloat
      rw [heq]
    unfold formatNumber numberText?
    rw [hdouble]
  · -- the text of a zero has no sign
    unfold formatNumber numberText? Double.ofFloat
    rw [hx, hy]
    rfl

theorem mapM_formatNumber_eq {xs ys : List Float} (h : List.Forall₂ Alike xs ys) :
    xs.mapM formatNumber = ys.mapM formatNumber := by
  induction h with
  | nil => rfl
  | cons hx _ ih => rw [List.mapM_cons, List.mapM_cons, hx.formatNumber_eq, ih]

theorem Value.Alike.exists_coordinates {v w : Value Float} (h : v.Alike w) :
    v.kind = w.kind ∧ ∃ xs ys, v.coordinates? = some xs ∧ w.coordinates? = some ys ∧
      List.Forall₂ Planar.Alike xs ys := by
  cases h with
  | empty => exact ⟨rfl, _, _, rfl, rfl, .nil⟩
  | point h => exact ⟨rfl, _, _, rfl, rfl, .cons h.x (.cons h.y .nil)⟩
  | line h => exact ⟨rfl, _, _, rfl, rfl, .cons h.slope (.cons h.intercept .nil)⟩
  | vertical h => exact ⟨rfl, _, _, rfl, rfl, .cons h.x .nil⟩
  | segment h => exact ⟨rfl, _, _, rfl, rfl, .cons h.x₁ (.cons h.y₁ (.cons h.x₂ (.cons h.y₂ .nil)))⟩

theorem Value.Alike.format_eq {v w : Value Float} (h : v.Alike w) : v.format = w.format := by
  obtain ⟨hkind, xs, ys, hxs, hys, hall⟩ := h.exists_coordinates
  have hempty : xs.isEmpty = ys.isEmpty := by cases hall <;> rfl
  rw [format, format, coordinates, coordinates, hxs, hys, hkind]
  show (if xs.isEmpty = true then _ else xs.mapM formatNumber >>= _) =
    (if ys.isEmpty = true then _ else ys.mapM formatNumber >>= _)
  rw [hempty, mapM_formatNumber_eq hall]

namespace Expr.Alike

variable {e e' : Expr Float}

theorem line_eq (h : e.Alike e') : e.line = e'.line := by
  induction h with
  | literal hv => exact hv.format_eq
  | var => rfl
  | intersect _ _ iha ihb => rw [Expr.line, Expr.line, iha, ihb]
  | bind _ _ iha ihb => rw [Expr.line, Expr.line, iha, ihb]
  | shift hx hy _ ih => rw [Expr.line, Expr.line, hx.formatNumber_eq, hy.formatNumber_eq, ih]

theorem programLines_eq (h : e.Alike e') (indent margin : String) :
    e.programLines indent margin = e'.programLines indent margin := by
  have one {a b : Expr Float} (hab : a.Alike b) (margin : String) :
      (do return [margin ++ (← a.line)] : Except Fault (List String)) =
        do return [margin ++ (← b.line)] := by
    rw [hab.line_eq]
  induction h generalizing margin with
  | literal hv => exact one (.literal hv) margin
  | var => rfl
  | intersect ha hb _ _ => exact one (.intersect ha hb) margin
  | bind ha _ _ ihb =>
    rw [programLines, programLines, ha.line_eq, ihb]
  | shift hx hy ha _ => exact one (.shift hx hy ha) margin

theorem program_eq (h : e.Alike e') (indent : String) : e.program indent = e'.program indent := by
  rw [program, program, h.programLines_eq]

end Expr.Alike

end Planar
