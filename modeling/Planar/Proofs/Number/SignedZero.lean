import Planar.Proofs.Number.Packing
import Planar.Scalar

/-!
# Doubles up to the sign of a zero

Two doubles are alike if they are the same or both a zero. Arithmetic and comparison do not tell
alike doubles apart, except that a quotient by a zero has a sign.

* `Alike` — the same double up to the sign of a zero;
* `Alike.add`, `Alike.sub`, `Alike.mul`, `Alike.quotient` — arithmetic keeps doubles alike;
* `Alike.lt_eq`, `Alike.le_eq`, `Alike.close_eq` — the tests agree on alike doubles;
* `alike_of_eq`, `eq_of_eq_of_eq` — equal doubles are alike, and equality of doubles is transitive;
* `Double.lt_zero_eq` — the doubles that are less than zero;
* `Double.close_comm`, `Double.lt_asymm`, `Double.lt_of_not_close` — closeness and order of doubles;
* `Double.isFinite_of_close` — only finite doubles are close;
* `sub_ne_zero_of_not_close` — differences that are safe to divide by.
-/

namespace Planar

namespace Double

open Float.Model (UnpackedFloat)
open Float.Model.UnpackedFloat (Sign packComponents)

/-! ## Unpacked doubles -/

theorem unpack_pack_zero (s : Sign) : (Float.Model.pack (.zero s)).unpack = .zero s := by
  cases s <;> rfl

/-- Whether two unpacked doubles are the same up to the sign of a zero. -/
def Matches (a b : UnpackedFloat) : Prop := a = b ∨ ∃ s t, a = .zero s ∧ b = .zero t

namespace Matches

theorem refl (a : UnpackedFloat) : Matches a a := .inl rfl

theorem zero (s t : Sign) : Matches (.zero s) (.zero t) := .inr ⟨s, t, rfl, rfl⟩

theorem trans {a b c : UnpackedFloat} (h : Matches a b) (h' : Matches b c) : Matches a c := by
  rcases h with rfl | ⟨s, t, rfl, rfl⟩
  · exact h'
  · rcases h' with rfl | ⟨t', u, _, rfl⟩
    · exact zero s t
    · exact zero s u

/-- Packing keeps unpacked doubles the same up to the sign of a zero. -/
theorem unpack_pack {a b : UnpackedFloat} (h : Matches a b) :
    Matches (Float.Model.pack a).unpack (Float.Model.pack b).unpack := by
  rcases h with rfl | ⟨s, t, rfl, rfl⟩
  · exact refl _
  · rw [unpack_pack_zero, unpack_pack_zero]
    exact zero s t

variable {a b a' b' : UnpackedFloat}

/-- An operation that tells zeros apart on neither side keeps its results the same up to the sign of
a zero. -/
theorem binary (op : UnpackedFloat → UnpackedFloat → UnpackedFloat)
    (left : ∀ s t u, Matches (op (.zero s) u) (op (.zero t) u))
    (right : ∀ s t u, Matches (op u (.zero s)) (op u (.zero t))) (h : Matches a a')
    (h' : Matches b b') : Matches (op a b) (op a' b') := by
  have hleft : Matches (op a b) (op a' b) := by
    rcases h with rfl | ⟨s, t, rfl, rfl⟩
    · exact refl _
    · exact left s t b
  refine hleft.trans ?_
  rcases h' with rfl | ⟨s, t, rfl, rfl⟩
  · exact refl _
  · exact right s t a'

theorem add (h : Matches a a') (h' : Matches b b') :
    Matches (a.add .binary64 b) (a'.add .binary64 b') := by
  refine binary (UnpackedFloat.add .binary64) ?_ ?_ h h'
  all_goals
    intro s t u
    cases u with
    | zero r => cases s <;> cases t <;> cases r <;> exact zero _ _
    | _ => exact refl _

theorem sub (h : Matches a a') (h' : Matches b b') :
    Matches (a.sub .binary64 b) (a'.sub .binary64 b') := by
  refine binary (UnpackedFloat.sub .binary64) ?_ ?_ h h'
  all_goals
    intro s t u
    cases u with
    | zero r => cases s <;> cases t <;> cases r <;> exact zero _ _
    | _ => exact refl _

theorem mul (h : Matches a a') (h' : Matches b b') :
    Matches (a.mul .binary64 b) (a'.mul .binary64 b') := by
  refine binary (UnpackedFloat.mul .binary64) ?_ ?_ h h'
  all_goals
    intro s t u
    cases u with
    | zero r => exact zero _ _
    | finite r m e hm => exact zero _ _
    | _ => exact refl _

/-- The numerator of a quotient may be exchanged; a denominator that is a zero may not. -/
theorem div (h : Matches a a') (b : UnpackedFloat) :
    Matches (a.div .binary64 b) (a'.div .binary64 b) := by
  rcases h with rfl | ⟨s, t, rfl, rfl⟩
  · exact refl _
  · cases b with
    | infinity r => exact zero _ _
    | finite r m e hm => exact zero _ _
    | _ => exact refl _

theorem abs (h : Matches a a') : Matches a.abs a'.abs := by
  rcases h with rfl | ⟨s, t, rfl, rfl⟩
  · exact refl _
  · exact zero _ _

/-- A comparison does not see the sign of a zero. -/
theorem compare_eq (h : Matches a a') (h' : Matches b b') : a.compare b = a'.compare b' := by
  have left (s t : Sign) (u : UnpackedFloat) :
      (UnpackedFloat.zero s).compare u = (UnpackedFloat.zero t).compare u := by
    cases u with
    | infinity r => cases r <;> rfl
    | finite r m e hm => cases r <;> rfl
    | _ => rfl
  have right (s t : Sign) (u : UnpackedFloat) :
      u.compare (.zero s) = u.compare (.zero t) := by
    cases u with
    | infinity r => cases r <;> rfl
    | finite r m e hm => cases r <;> rfl
    | _ => rfl
  have hleft : a.compare b = a'.compare b := by
    rcases h with rfl | ⟨s, t, rfl, rfl⟩
    · rfl
    · exact left s t b
  rw [hleft]
  rcases h' with rfl | ⟨s, t, rfl, rfl⟩
  · rfl
  · exact right s t a'

/-- Unpacked doubles that compare as equal are the same up to the sign of a zero. -/
theorem of_compare (h : a.compare b = some .eq) : Matches a b := by
  cases a with
  | notANumber => cases h
  | infinity s =>
    cases b with
    | infinity t => cases s <;> cases t <;> first | exact refl _ | cases h
    | _ => cases s <;> cases h
  | zero s =>
    cases b with
    | notANumber => cases h
    | infinity t => cases t <;> cases h
    | zero t => exact zero s t
    | finite t m e hm => cases t <;> cases h
  | finite s m e hm =>
    cases b with
    | notANumber => cases s <;> cases h
    | infinity t => cases s <;> cases t <;> cases h
    | zero t => cases s <;> cases h
    | finite t m' e' hm' =>
      cases s <;> cases t
      · obtain ⟨rfl, rfl⟩ : e = e' ∧ m = m' := by
          simpa [UnpackedFloat.compare, Ordering.then_eq_eq, Ordering.swap_eq_eq] using h
        exact refl _
      · cases h
      · cases h
      · obtain ⟨rfl, rfl⟩ : e = e' ∧ m = m' := by
          simpa [UnpackedFloat.compare, Ordering.then_eq_eq] using h
        exact refl _

end Matches

/-- Exchanging the sides of a comparison turns its answer round. -/
theorem compare_swap (a b : UnpackedFloat) : b.compare a = (a.compare b).map Ordering.swap := by
  cases a with
  | notANumber => cases b <;> rfl
  | infinity s =>
    cases b with
    | infinity t => cases s <;> cases t <;> rfl
    | finite t m e hm => cases s <;> cases t <;> rfl
    | _ => cases s <;> rfl
  | zero s =>
    cases b with
    | infinity t => cases t <;> rfl
    | finite t m e hm => cases t <;> rfl
    | _ => rfl
  | finite s m e hm =>
    cases b with
    | notANumber => cases s <;> rfl
    | infinity t => cases s <;> cases t <;> rfl
    | zero t => cases s <;> rfl
    | finite t m' e' hm' =>
      have hexponent := Int.compare_swap e e'
      have hmantissa := Nat.compare_swap m m'
      cases s <;> cases t <;>
        simp [UnpackedFloat.compare, ← hexponent, ← hmantissa, Ordering.swap_then]

theorem compare_ne_none {a b : UnpackedFloat} (ha : a.isFinite = true) (hb : b.isFinite = true) :
    a.compare b ≠ none := by
  cases a with
  | notANumber => cases ha
  | infinity s => cases ha
  | zero s =>
    cases b with
    | finite t m e hm => cases t <;> nofun
    | zero t => nofun
    | _ => cases hb
  | finite s m e hm =>
    cases b with
    | finite t m' e' hm' => cases s <;> cases t <;> nofun
    | zero t => cases s <;> nofun
    | _ => cases hb

/-! ## Differences turned round -/

theorem round_negative (m : Nat) (e : Int) :
    UnpackedFloat.round .binary64 .negative m e =
      (UnpackedFloat.round .binary64 .positive m e).neg := by
  unfold UnpackedFloat.round UnpackedFloat.roundWithAccuracy
  dsimp only
  split <;> rfl

theorem normalize_neg (m e : Int) :
    Matches (UnpackedFloat.normalize .binary64 (-m) e .positive)
      (UnpackedFloat.normalize .binary64 m e .positive).neg := by
  -- both sides round the same magnitude; a difference of zero is a positive zero on either side
  unfold UnpackedFloat.normalize
  rcases lt_trichotomy m 0 with hm | rfl | hm
  · have hneg : 0 < -m := by omega
    rw [compare_lt_iff_lt.2 hm, compare_gt_iff_gt.2 hneg]
    dsimp only
    rw [round_negative]
    cases UnpackedFloat.round .binary64 .positive (-m).toNat e with
    | finite s _ _ _ => cases s <;> exact .refl _
    | infinity s => cases s <;> exact .refl _
    | zero s => exact .zero _ _
    | notANumber => exact .refl _
  · exact .zero _ _
  · have hneg : -m < 0 := by omega
    rw [compare_gt_iff_gt.2 hm, compare_lt_iff_lt.2 hneg]
    dsimp only
    rw [round_negative, neg_neg]
    exact .refl _

/-- Exchanging the sides of a difference turns its sign round. -/
theorem sub_swap (a b : UnpackedFloat) :
    Matches (b.sub .binary64 a) (a.sub .binary64 b).neg := by
  cases a with
  | notANumber => cases b <;> exact .refl _
  | infinity s =>
    cases b with
    | infinity t => cases s <;> cases t <;> exact .refl _
    | _ => cases s <;> exact .refl _
  | zero s =>
    cases b with
    | infinity t => cases t <;> exact .refl _
    | zero t => cases s <;> cases t <;> exact .zero _ _
    | finite t m e hm => cases t <;> exact .refl _
    | notANumber => exact .refl _
  | finite s m e hm =>
    cases b with
    | notANumber => exact .refl _
    | infinity t => cases t <;> exact .refl _
    | zero t => exact .refl _
    | finite t m' e' hm' =>
      simp only [UnpackedFloat.sub, min_comm e' e]
      rw [← neg_sub]
      exact normalize_neg _ _

theorem exists_sub_self_eq_zero {a : UnpackedFloat} (h : a.isFinite = true) :
    ∃ s, a.sub .binary64 a = .zero s := by
  cases a with
  | notANumber => cases h
  | infinity s => cases h
  | zero s => cases s <;> exact ⟨_, rfl⟩
  | finite s m e hm =>
    refine ⟨.positive, ?_⟩
    simp only [UnpackedFloat.sub, sub_self]
    rfl

/-- A difference in which one side is not finite is not finite either. -/
theorem sub_of_not_isFinite {a b : UnpackedFloat} (h : a.isFinite = false ∨ b.isFinite = false) :
    a.sub .binary64 b = .notANumber ∨ ∃ s, a.sub .binary64 b = .infinity s := by
  cases a with
  | notANumber => exact .inl rfl
  | infinity s =>
    cases b with
    | notANumber => exact .inl rfl
    | infinity t =>
      cases s <;> cases t
      · exact .inl rfl
      · exact .inr ⟨_, rfl⟩
      · exact .inr ⟨_, rfl⟩
      · exact .inl rfl
    | _ => exact .inr ⟨s, rfl⟩
  | _ =>
    cases b with
    | notANumber => exact .inl rfl
    | infinity t => exact .inr ⟨-t, rfl⟩
    | _ => simp [UnpackedFloat.isFinite] at h

/-- Packing keeps the sign apart from the rest. -/
theorem abs_unpack_pack_neg (a : UnpackedFloat) :
    (Float.Model.pack a.neg).unpack.abs = (Float.Model.pack a).unpack.abs := by
  have components (s t : Sign) (e : BitVec 11) (m : BitVec 52) :
      (UnpackedFloat.unpack .binary64 (packComponents .binary64 s e m)).abs =
        (UnpackedFloat.unpack .binary64 (packComponents .binary64 t e m)).abs := by
    rw [unpack_packComponents, unpack_packComponents]
    split_ifs <;> rfl
  cases a with
  | notANumber => rfl
  | infinity s => exact components (-s) s _ _
  | zero s => exact components (-s) s _ _
  | finite s m e hm =>
    show (UnpackedFloat.unpack .binary64 (UnpackedFloat.pack .binary64 _)).abs =
      (UnpackedFloat.unpack .binary64 (UnpackedFloat.pack .binary64 _)).abs
    unfold UnpackedFloat.neg UnpackedFloat.pack
    dsimp only
    split_ifs
    · exact components (-s) s _ _
    · exact components (-s) s _ _
    · exact components (-s) s _ _

end Double

/-! ## Doubles -/

open Double (Matches)
open Float.Model.UnpackedFloat (Sign)

/-- Whether two doubles are the same up to the sign of a zero. -/
def Alike (x y : Float) : Prop := Matches x.toModel.unpack y.toModel.unpack

variable {x y z x' y' z' : Float}

theorem Alike.refl (x : Float) : Alike x x := Matches.refl _

theorem Alike.add (hx : Alike x x') (hy : Alike y y') : Alike (x + y) (x' + y') :=
  (Matches.add hx hy).unpack_pack

theorem Alike.sub (hx : Alike x x') (hy : Alike y y') : Alike (x - y) (x' - y') :=
  (Matches.sub hx hy).unpack_pack

theorem Alike.mul (hx : Alike x x') (hy : Alike y y') : Alike (x * y) (x' * y') :=
  (Matches.mul hx hy).unpack_pack

theorem Alike.abs (hx : Alike x x') : Alike (Scalar.abs x) (Scalar.abs x') :=
  (Matches.abs hx).unpack_pack

theorem Double.lt_eq_true_iff :
    Scalar.lt x y = true ↔ x.toModel.unpack.compare y.toModel.unpack = some .lt := by
  show decide (x < y) = true ↔ _
  rw [decide_eq_true_iff]
  show decide (x.toModel < y.toModel) = true ↔ _
  rw [decide_eq_true_iff]
  exact beq_iff_eq

theorem Double.le_eq_true_iff :
    Scalar.le x y = true ↔
      (x.toModel.unpack.compare y.toModel.unpack).any (·.isLE) = true := by
  show decide (x ≤ y) = true ↔ _
  rw [decide_eq_true_iff]
  show decide (x.toModel ≤ y.toModel) = true ↔ _
  rw [decide_eq_true_iff]
  exact Iff.rfl

theorem Alike.lt_eq (hx : Alike x x') (hy : Alike y y') : Scalar.lt x y = Scalar.lt x' y' := by
  rw [Bool.eq_iff_iff, Double.lt_eq_true_iff, Double.lt_eq_true_iff, Matches.compare_eq hx hy]

theorem Alike.le_eq (hx : Alike x x') (hy : Alike y y') : Scalar.le x y = Scalar.le x' y' := by
  rw [Bool.eq_iff_iff, Double.le_eq_true_iff, Double.le_eq_true_iff, Matches.compare_eq hx hy]

theorem Alike.eq_eq (hx : Alike x x') (hy : Alike y y') : Scalar.eq x y = Scalar.eq x' y' := by
  show (x.toModel.unpack.compare y.toModel.unpack == some .eq) =
    (x'.toModel.unpack.compare y'.toModel.unpack == some .eq)
  rw [Matches.compare_eq hx hy]

theorem Alike.close_eq (hx : Alike x x') (hy : Alike y y') :
    Scalar.close x y = Scalar.close x' y' :=
  (hx.sub hy).abs.lt_eq (.refl _)

/-- Equal doubles are alike. -/
theorem alike_of_eq (h : Scalar.eq x y = true) : Alike x y := by
  refine Matches.of_compare ?_
  have heq : (x.toModel.unpack.compare y.toModel.unpack == some .eq) = true := h
  exact eq_of_beq heq

/-- Doubles that are equal to one double are equal to each other. -/
theorem eq_of_eq_of_eq (hx : Scalar.eq z x = true) (hy : Scalar.eq z y = true) :
    Scalar.eq x y = true := by
  rwa [← (alike_of_eq hx).eq_eq (.refl y)]

/-- A finite double is less than zero if its sign is the negative one and it is no zero. -/
theorem Double.lt_zero_eq {negative : Bool} {m : ℕ} {q : ℤ} (h : ofFloat x = .finite negative m q) :
    Scalar.lt x Scalar.zero = (negative && m != 0) := by
  have hfields : ofFloat Scalar.zero = .finite false 0 leastExponent := by decide +kernel
  have hzero : (Scalar.zero : Float).toModel.unpack = .zero .positive := by
    rcases unpack_of_ofFloat hfields with ⟨_, _, hunpack⟩ | ⟨hpos, _⟩
    · exact hunpack
    · exact absurd hpos (lt_irrefl 0)
  rw [Bool.eq_iff_iff, lt_eq_true_iff, hzero]
  rcases unpack_of_ofFloat h with ⟨rfl, _, hunpack⟩ | ⟨hpos, hunpack⟩
  · rw [hunpack, bne_self_eq_false, Bool.and_false]
    exact iff_of_false nofun nofun
  · have hne : (m != 0) = true := by simpa using hpos.ne'
    rw [hunpack, hne, Bool.and_true]
    cases negative
    · exact iff_of_false nofun nofun
    · exact iff_of_true rfl rfl

theorem Double.close_comm (x y : Float) : Scalar.close x y = Scalar.close y x := by
  refine Alike.lt_eq ?_ (.refl _)
  have hneg := (Double.sub_swap y.toModel.unpack x.toModel.unpack).unpack_pack.abs
  rw [Double.abs_unpack_pack_neg] at hneg
  exact hneg.unpack_pack

theorem Double.lt_asymm (h : Scalar.lt x y = true) : Scalar.lt y x = false := by
  rw [← Bool.not_eq_true, Double.lt_eq_true_iff, Double.compare_swap, Double.lt_eq_true_iff.1 h]
  nofun

/-- A difference that is a zero is less than the tolerance. -/
theorem Double.not_zero_of_not_close (h : Scalar.close x y = false) (sign : Sign) :
    (x - y).toModel.unpack ≠ .zero sign := by
  intro hzero
  have habs : Alike (Scalar.abs (x - y)) (Scalar.abs 0) := by
    refine Alike.abs ?_
    unfold Alike
    rw [hzero]
    exact .zero sign .positive
  have hlt : Scalar.lt (Scalar.abs (0 : Float)) Scalar.tolerance = true := by decide +kernel
  rw [Scalar.close, habs.lt_eq (.refl _), hlt] at h
  cases h

/-- A difference of doubles that are not close does not count as zero. -/
theorem sub_ne_zero_of_not_close (h : Scalar.close x y = false) :
    Scalar.eq (x - y) Scalar.zero = false := by
  rw [← Bool.not_eq_true]
  intro hzero
  have hlt : Scalar.lt (Scalar.abs (Scalar.zero : Float)) Scalar.tolerance = true := by
    decide +kernel
  rw [Scalar.close, (Alike.abs (alike_of_eq hzero)).lt_eq (.refl _), hlt] at h
  cases h

/-- A quotient by a difference of doubles that are not close does not see the sign of a zero. -/
theorem Alike.quotient (hx : Alike x x') (hy : Alike y y') (hz : Alike z z')
    (hclose : Scalar.close y z = false) : Alike (x / (y - z)) (x' / (y' - z')) := by
  -- the denominator is no zero, so it is the same double on both sides
  have hdifference : (y - z).toModel.unpack = (y' - z').toModel.unpack := by
    rcases hy.sub hz with heq | ⟨s, _, hzero, _⟩
    · exact heq
    · exact absurd hzero (Double.not_zero_of_not_close hclose s)
  have hquotient := Matches.div hx (y - z).toModel.unpack
  show Matches (Float.Model.pack _).unpack (Float.Model.pack _).unpack
  rw [← hdifference]
  exact hquotient.unpack_pack

theorem Double.close_self (hx : x.isFinite = true) : Scalar.close x x = true := by
  obtain ⟨s, hs⟩ := Double.exists_sub_self_eq_zero (a := x.toModel.unpack) hx
  by_contra hclose
  refine Double.not_zero_of_not_close (Bool.not_eq_true _ ▸ hclose) s ?_
  show (Float.Model.pack (x.toModel.unpack.sub .binary64 x.toModel.unpack)).unpack = .zero s
  rw [hs, Double.unpack_pack_zero]

/-- Doubles that are close are finite. -/
theorem Double.isFinite_of_close (h : Scalar.close x y = true) :
    x.isFinite = true ∧ y.isFinite = true := by
  have hsub : x - y = .ofModel (.pack (x.toModel.unpack.sub .binary64 y.toModel.unpack)) := rfl
  by_contra hfinite
  rw [not_and_or, Bool.not_eq_true, Bool.not_eq_true] at hfinite
  rw [Scalar.close, hsub] at h
  rcases Double.sub_of_not_isFinite hfinite with hnan | ⟨s, hinfinite⟩
  · rw [hnan] at h
    exact absurd h (by decide +kernel)
  · rw [hinfinite] at h
    cases s <;> exact absurd h (by decide +kernel)

/-- Of two finite doubles that are not close, one is less than the other. -/
theorem Double.lt_of_not_close (hx : x.isFinite = true) (hy : y.isFinite = true)
    (hclose : Scalar.close x y = false) (hlt : Scalar.lt x y = false) : Scalar.lt y x = true := by
  rw [← Bool.not_eq_true, Double.lt_eq_true_iff] at hlt
  rw [Double.lt_eq_true_iff, Double.compare_swap]
  cases hcompare : x.toModel.unpack.compare y.toModel.unpack with
  | none => exact absurd hcompare (Double.compare_ne_none hx hy)
  | some order =>
    cases order with
    | lt => exact absurd hcompare hlt
    | gt => rfl
    | eq =>
      have halike : Alike x y := Matches.of_compare hcompare
      rw [← Alike.close_eq (.refl x) halike, Double.close_self hx] at hclose
      cases hclose

end Planar
