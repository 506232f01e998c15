import Mathlib
import Planar.Decimal.Double

/-!
# Doubles and their fields

The bits of a double hold a sign, an exponent and a mantissa. This module says which fields occur
and that nothing is lost between the bits and the number they stand for:

* `Fits` — the pairs of mantissa and exponent that a finite double can have;
* `fits_of_ofFloat` — every finite double has such a pair;
* `ofFloat_toFloat` — the double built from such a pair has that very pair;
* `ofFloat_neg`, `isFinite_iff`, `beq_of_ofFloat` — negation, finiteness and equality of doubles,
  read off the pair.
-/

namespace Planar.Double

open Float.Model (UnpackedFloat)
open Float.Model.UnpackedFloat (Sign packComponents unpackSign)

/-- The fields of a finite double: a mantissa of at most 53 bits, which has all of them unless the
exponent is the least one. -/
structure Fits (mantissa : Nat) (exponent : Int) : Prop where
  mantissa_lt : mantissa < 2 ^ 53
  least_le : leastExponent ≤ exponent
  le_greatest : exponent ≤ greatestExponent
  full : 2 ^ 52 ≤ mantissa ∨ exponent = leastExponent

theorem Fits.zero : Fits 0 leastExponent :=
  ⟨by decide, by decide, by decide, .inr rfl⟩

/-- Zero is packed under the least exponent only. -/
theorem Fits.exponent_eq_of_zero {exponent : Int} (h : Fits 0 exponent) :
    exponent = leastExponent := by
  rcases h.full with hfull | hleast
  · exact absurd hfull (by decide)
  · exact hleast

/-! ## Packing and unpacking -/

theorem unpackSign_packComponents {spec : Float.Model.Format} (sign : Sign)
    (exponent : BitVec spec.exponentBits) (mantissa : BitVec spec.mantissaBitsWithoutImplicit) :
    unpackSign (packComponents spec sign exponent mantissa) = sign.toBitVec := by
  ext i hi
  have hzero : i = 0 := by omega
  subst hzero
  simp [unpackSign, packComponents, BitVec.getLsbD_append, BitVec.getElem_append]

theorem ofBitVec_toBitVec (sign : Sign) : Sign.ofBitVec sign.toBitVec = sign := by
  cases sign <;> rfl

/-- What the three fields of a double stand for. -/
theorem unpack_packComponents (sign : Sign) (exponent : BitVec 11) (mantissa : BitVec 52) :
    UnpackedFloat.unpack .binary64 (packComponents .binary64 sign exponent mantissa) =
      if exponent = -1#_ then if mantissa = 0#_ then .infinity sign else .notANumber
      else if exponent = 0#_ then
        if h : mantissa = 0#_ then .zero sign
        else .finite sign mantissa.toNat leastExponent
          (by simpa [BitVec.toNat_pos, BitVec.pos_iff_ne_zero] using h)
      else .finite sign (2 ^ 52 + mantissa.toNat) (exponent.toNat - 1075) (by positivity) := by
  -- A full mantissa is stored without its leading bit.
  have himplicit : (1#1 ++ mantissa).toNat = 2 ^ 52 + mantissa.toNat := by
    rw [BitVec.toNat_append, ← Nat.shiftLeft_add_eq_or_of_lt mantissa.isLt]
    simp [Nat.shiftLeft_eq]
  unfold UnpackedFloat.unpack
  simp only [unpackSign_packComponents, ofBitVec_toBitVec,
    Float.Model.UnpackedFloat.unpackMantissa_packComponents,
    Float.Model.UnpackedFloat.unpackExponent_packComponents]
  by_cases hall : exponent = -1#_
  · simp [hall]
  by_cases hzero : exponent = 0#_
  · simp [hzero, leastExponent, Float.Model.Format.exponentBias]
  · simp only [hall, hzero, if_false, Float.Model.Format.exponentBias]
    congr 1

/-- Every row of 64 bits is packed from fields. -/
theorem exists_packComponents (bits : BitVec 64) :
    ∃ (sign : Sign) (exponent : BitVec 11) (mantissa : BitVec 52),
      bits = packComponents .binary64 sign exponent mantissa := by
  refine ⟨Sign.ofBitVec (bits.extractLsb' 63 1), bits.extractLsb' 52 11, bits.extractLsb' 0 52, ?_⟩
  have hsign : (Sign.ofBitVec (bits.extractLsb' 63 1)).toBitVec = bits.extractLsb' 63 1 := by
    generalize bits.extractLsb' 63 1 = b
    revert b
    decide
  unfold packComponents
  rw [hsign]
  ext i hi
  simp
  grind

/-- The fields under which a finite double is packed. -/
theorem pack_finite (sign : Sign) {mantissa : Nat} {exponent : Int} (hpos : 0 < mantissa)
    (hfits : Fits mantissa exponent) :
    UnpackedFloat.pack .binary64 (.finite sign mantissa exponent hpos) =
      packComponents .binary64 sign
        (BitVec.ofNat 11 (if 2 ^ 52 ≤ mantissa then (exponent + 1075).toNat else 0))
        (BitVec.ofNat 52 mantissa) := by
  obtain ⟨hlt, hleast, hgreatest, _⟩ := hfits
  simp only [leastExponent, greatestExponent] at hleast hgreatest
  have hbiased : (exponent + Float.Model.Format.binary64.exponentBias + (52 : Nat)).toNat =
      (exponent + 1075).toNat := by
    show (exponent + (1023 : Nat) + (52 : Nat)).toNat = _
    omega
  have hlog : mantissa.log2 + 1 = Float.Model.Format.binary64.mantissaBits ↔
      2 ^ 52 ≤ mantissa := by
    show mantissa.log2 + 1 = 53 ↔ _
    have hle := Nat.le_log2 hpos.ne' (k := 52)
    have hlt := (Nat.log2_lt hpos.ne').2 hlt
    omega
  unfold UnpackedFloat.pack
  dsimp only
  rw [hbiased]
  split
  · next hover =>
    have hover : 2048 ≤ (exponent + 1075).toNat + 1 := hover
    omega
  · by_cases hfull : 2 ^ 52 ≤ mantissa
    · rw [if_pos (hlog.2 hfull), if_pos hfull]
    · rw [if_neg (mt hlog.1 hfull), if_neg hfull]

/-- A finite double of fitting fields is packed without loss. -/
theorem unpack_pack_finite (sign : Sign) {mantissa : Nat} {exponent : Int} (hpos : 0 < mantissa)
    (hfits : Fits mantissa exponent) :
    (Float.Model.pack (.finite sign mantissa exponent hpos)).unpack =
      .finite sign mantissa exponent hpos := by
  show UnpackedFloat.unpack .binary64 (UnpackedFloat.pack .binary64 _) = _
  rw [pack_finite sign hpos hfits, unpack_packComponents]
  obtain ⟨hlt, hleast, hgreatest, hfull⟩ := hfits
  simp only [leastExponent, greatestExponent] at hleast hgreatest hfull
  by_cases hnormal : 2 ^ 52 ≤ mantissa
  · have hexp : (BitVec.ofNat 11 (exponent + 1075).toNat).toNat = (exponent + 1075).toNat := by
      rw [BitVec.toNat_ofNat, Nat.mod_eq_of_lt (by omega)]
    have hmant : 2 ^ 52 + (BitVec.ofNat 52 mantissa).toNat = mantissa := by
      rw [BitVec.toNat_ofNat]
      omega
    rw [if_pos hnormal, if_neg, if_neg]
    · simp only [hmant, hexp]
      congr 1
      omega
    · intro hzero
      have := congrArg BitVec.toNat hzero
      rw [hexp, BitVec.toNat_zero] at this
      omega
    · intro hall
      have := congrArg BitVec.toNat hall
      rw [hexp, BitVec.neg_one_eq_allOnes, BitVec.toNat_allOnes] at this
      omega
  · have hmant : (BitVec.ofNat 52 mantissa).toNat = mantissa := by
      rw [BitVec.toNat_ofNat, Nat.mod_eq_of_lt (by omega)]
    have hne : BitVec.ofNat 52 mantissa ≠ 0#52 := by
      intro hzero
      have := congrArg BitVec.toNat hzero
      rw [hmant, BitVec.toNat_zero] at this
      omega
    rw [if_neg hnormal, if_neg (by decide), if_pos rfl, dif_neg hne]
    simp only [hmant, leastExponent]
    congr 1
    omega

/-- The fields of every finite double fit. -/
theorem fits_of_unpack {bits : BitVec 64} {sign : Sign} {mantissa : Nat} {exponent : Int}
    {hpos : 0 < mantissa}
    (h : UnpackedFloat.unpack .binary64 bits = .finite sign mantissa exponent hpos) :
    Fits mantissa exponent := by
  obtain ⟨s, e, m, rfl⟩ := exists_packComponents bits
  rw [unpack_packComponents] at h
  have hmlt := m.isLt
  have helt := e.isLt
  split at h
  · split at h <;> cases h
  · next hnot =>
    have hne : e.toNat ≠ 2047 := fun hall => hnot (BitVec.eq_of_toNat_eq hall)
    split at h
    · split at h
      · cases h
      · injection h with _ hmant hexp
        exact ⟨by omega, by simp [← hexp], by simp [← hexp, leastExponent, greatestExponent],
          .inr hexp.symm⟩
    · next hzero =>
      have hpos : e.toNat ≠ 0 := fun hz => hzero (BitVec.eq_of_toNat_eq hz)
      injection h with _ hmant hexp
      exact ⟨by omega, by simp only [leastExponent]; omega, by simp only [greatestExponent]; omega,
        .inl (by omega)⟩

/-! ## The number in a double -/

theorem isNegative_signOf (negative : Bool) : isNegative (signOf negative) = negative := by
  cases negative <;> rfl

theorem signOf_isNegative (sign : Sign) : signOf (isNegative sign) = sign := by
  cases sign <;> rfl

theorem neg_signOf (negative : Bool) : -signOf negative = signOf !negative := by
  cases negative <;> rfl

/-- A finite double is a signed zero or has its fields in its bits. -/
theorem unpack_of_ofFloat {x : Float} {negative : Bool} {mantissa : Nat} {exponent : Int}
    (h : ofFloat x = .finite negative mantissa exponent) :
    (mantissa = 0 ∧ exponent = leastExponent ∧ x.toModel.unpack = .zero (signOf negative)) ∨
      ∃ hpos, x.toModel.unpack = .finite (signOf negative) mantissa exponent hpos := by
  unfold ofFloat at h
  split at h
  · cases h
  · cases h
  · next sign hunpack =>
    cases h
    exact .inl ⟨rfl, rfl, by rw [hunpack, signOf_isNegative]⟩
  · next sign m e hpos hunpack =>
    cases h
    exact .inr ⟨hpos, by rw [hunpack, signOf_isNegative]⟩

theorem ofFloat_of_unpack_finite {x : Float} {negative : Bool} {mantissa : Nat} {exponent : Int}
    (hpos : 0 < mantissa)
    (h : x.toModel.unpack = .finite (signOf negative) mantissa exponent hpos) :
    ofFloat x = .finite negative mantissa exponent := by
  unfold ofFloat
  rw [h]
  simp only [isNegative_signOf]

/-- The fields of a finite double fit. -/
theorem fits_of_ofFloat {x : Float} {negative : Bool} {mantissa : Nat} {exponent : Int}
    (h : ofFloat x = .finite negative mantissa exponent) : Fits mantissa exponent := by
  rcases unpack_of_ofFloat h with ⟨rfl, rfl, _⟩ | ⟨hpos, hunpack⟩
  · exact Fits.zero
  · exact fits_of_unpack hunpack

/-- The double built from fitting fields has those fields. -/
theorem ofFloat_toFloat {negative : Bool} {mantissa : Nat} {exponent : Int}
    (hfits : Fits mantissa exponent) :
    ofFloat (toFloat (.finite negative mantissa exponent)) =
      .finite negative mantissa exponent := by
  by_cases hpos : 0 < mantissa
  · apply ofFloat_of_unpack_finite hpos
    rw [toFloat, dif_pos hpos]
    exact unpack_pack_finite _ hpos hfits
  · obtain rfl : mantissa = 0 := by omega
    obtain rfl := hfits.exponent_eq_of_zero
    cases negative <;> rfl

theorem isFinite_iff (x : Float) :
    x.isFinite = true ↔
      ∃ negative mantissa exponent, ofFloat x = .finite negative mantissa exponent := by
  show x.toModel.unpack.isFinite = true ↔ _
  unfold ofFloat
  cases x.toModel.unpack <;> simp [UnpackedFloat.isFinite]

/-- Negation turns the sign of a finite double round and keeps the rest. -/
theorem ofFloat_neg {x : Float} {negative : Bool} {mantissa : Nat} {exponent : Int}
    (h : ofFloat x = .finite negative mantissa exponent) :
    ofFloat (-x) = .finite (!negative) mantissa exponent := by
  have hneg : (-x).toModel.unpack = (Float.Model.pack x.toModel.unpack.neg).unpack := rfl
  rcases unpack_of_ofFloat h with ⟨rfl, rfl, hunpack⟩ | ⟨hpos, hunpack⟩
  · unfold ofFloat
    rw [hneg, hunpack]
    cases negative <;> rfl
  · apply ofFloat_of_unpack_finite hpos
    rw [hneg, hunpack, UnpackedFloat.neg, neg_signOf]
    exact unpack_pack_finite _ hpos (fits_of_unpack hunpack)

/-- Two finite doubles with the same fields are equal; of two zeros the sign does not matter. -/
theorem beq_of_ofFloat {x y : Float} {negative negative' : Bool} {mantissa : Nat} {exponent : Int}
    (hx : ofFloat x = .finite negative mantissa exponent)
    (hy : ofFloat y = .finite negative' mantissa exponent)
    (hsign : mantissa ≠ 0 → negative = negative') : (x == y) = true := by
  show (x.toModel.unpack.compare y.toModel.unpack == some .eq) = true
  rcases unpack_of_ofFloat hx with ⟨rfl, rfl, hux⟩ | ⟨hpos, hux⟩
  · rcases unpack_of_ofFloat hy with ⟨_, _, huy⟩ | ⟨hpos, huy⟩
    · rw [hux, huy]
      rfl
    · exact absurd hpos (lt_irrefl 0)
  · rcases unpack_of_ofFloat hy with ⟨hzero, _, huy⟩ | ⟨_, huy⟩
    · exact absurd hzero hpos.ne'
    · rw [hux, huy, hsign hpos.ne']
      cases negative' <;> simp [signOf, UnpackedFloat.compare]

end Planar.Double
