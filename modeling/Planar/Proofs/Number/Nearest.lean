import Mathlib.Tactic
import Mathlib.Data.Rat.Cast.Order
import Planar.Decimal.Numeral
import Planar.Proofs.Number.Packing

/-!
# Reading a decimal back

Around every finite double lies the interval of the numbers that are nearest to it. A decimal in
that interval is read as the double, however it is written, and the shortest decimal of a double
lies in its interval:

* `Nearby m q v` — `v` lies in the interval of `m * 2 ^ q`; an end belongs to it when `m` is even;
* `Double.nearest_eq` — rounding a fraction in the interval gives the double;
* `Double.ofDecimal_eq` — so does reading a decimal in the interval;
* `Decimal.nearby_shortest` — the shortest decimal lies in the interval.
-/

namespace Planar

open Double (leastExponent greatestExponent Fits)

/-! ## Powers with signed exponents -/

/-- A power with a signed exponent as a fraction of two powers, one of which is one. -/
theorem zpow_eq_toNat_div (b : ℚ) (e : ℤ) :
    b ^ e = b ^ e.toNat / b ^ (-e).toNat := by
  rcases le_total 0 e with h | h
  · obtain ⟨n, rfl⟩ := Int.eq_ofNat_of_zero_le h
    simp
  · obtain ⟨n, hn⟩ := Int.eq_ofNat_of_zero_le (Int.neg_nonneg.2 h)
    obtain rfl : e = -(n : ℤ) := by omega
    simp

/-- Moving a fraction to the unit `2 ^ e` divides it by that power. -/
theorem scaled_eq (num den : ℕ) (e : ℤ) :
    ((num * 2 ^ (-e).toNat : ℕ) : ℚ) / ((den * 2 ^ e.toNat : ℕ) : ℚ) = num / den / 2 ^ e := by
  rw [zpow_eq_toNat_div 2 e]
  push_cast
  field_simp

/-! ## Rounding to an integer -/

/-- A fraction is rounded to `m` when it is at most half a unit away, and less than that unless `m`
is even. -/
theorem roundHalfEven_eq {num den m : ℕ} (hden : 0 < den)
    (hlow : 2 * (m : ℚ) - 1 ≤ 2 * (num / den)) (hhigh : 2 * ((num : ℚ) / den) ≤ 2 * m + 1)
    (htie : 2 * (m : ℚ) - 1 = 2 * (num / den) ∨ 2 * ((num : ℚ) / den) = 2 * m + 1 →
      m % 2 = 0) :
    roundHalfEven num den = m := by
  have hd : (0 : ℚ) < den := by exact_mod_cast hden
  have hlow' : 2 * (m * den) ≤ 2 * num + den := by
    have : 2 * ((m : ℚ) * den) ≤ 2 * num + den := by
      rw [← mul_div_assoc, le_div_iff₀ hd] at hlow
      linarith
    exact_mod_cast this
  have hhigh' : 2 * num ≤ 2 * (m * den) + den := by
    have : 2 * (num : ℚ) ≤ 2 * (m * den) + den := by
      rw [← mul_div_assoc, div_le_iff₀ hd] at hhigh
      linarith
    exact_mod_cast this
  have htie' : 2 * (m * den) = 2 * num + den ∨ 2 * num = 2 * (m * den) + den → m % 2 = 0 := by
    rintro (heq | heq)
    · refine htie (.inl ?_)
      have : 2 * ((m : ℚ) * den) = 2 * num + den := by exact_mod_cast heq
      rw [← mul_div_assoc, eq_div_iff hd.ne']
      linarith
    · refine htie (.inr ?_)
      have : 2 * (num : ℚ) = 2 * (m * den) + den := by exact_mod_cast heq
      rw [← mul_div_assoc, div_eq_iff hd.ne']
      linarith
  clear hlow hhigh htie
  have hsplit := Nat.div_add_mod num den
  have hrest := Nat.mod_lt num hden
  rw [Nat.mul_comm] at hsplit
  -- Only the two neighbours of the fraction are within half a unit of it.
  have hneighbour : m = num / den ∨ m = num / den + 1 := by
    have hle : num / den ≤ m := by
      by_contra hlt
      have : (m + 1) * den ≤ num / den * den := Nat.mul_le_mul_right _ (by omega)
      rw [Nat.add_mul] at this
      omega
    have hge : m ≤ num / den + 1 := by
      by_contra hlt
      have : (num / den + 2) * den ≤ m * den := Nat.mul_le_mul_right _ (by omega)
      rw [Nat.add_mul] at this
      omega
    omega
  unfold roundHalfEven
  dsimp only
  rcases hneighbour with hm | hm
  · rw [hm] at hlow' hhigh' htie' ⊢
    split_ifs <;> omega
  · rw [hm, Nat.add_mul, Nat.one_mul] at hlow' hhigh' htie'
    rw [hm]
    split_ifs <;> omega

/-! ## The power of two below a fraction -/

theorem two_zpow_log2_le {n : ℕ} (hn : n ≠ 0) : (2 : ℚ) ^ (n.log2 : ℤ) ≤ n := by
  rw [zpow_natCast]
  exact_mod_cast Nat.log2_self_le hn

theorem lt_two_zpow_log2 (n : ℕ) : (n : ℚ) < 2 ^ (n.log2 + 1 : ℤ) := by
  have h : n < 2 ^ (n.log2 + 1) := Nat.lt_log2_self
  rw [← Nat.cast_add_one, zpow_natCast]
  exact_mod_cast h

/-- `binade` finds the power of two at or below a fraction. -/
theorem binade_spec {num den : ℕ} (hnum : 0 < num) (hden : 0 < den) :
    (2 : ℚ) ^ binade num den ≤ num / den ∧ (num : ℚ) / den < 2 ^ (binade num den + 1) := by
  have hd : (0 : ℚ) < den := by exact_mod_cast hden
  have hn₁ := two_zpow_log2_le hnum.ne'
  have hn₂ := lt_two_zpow_log2 num
  have hd₁ := two_zpow_log2_le hden.ne'
  have hd₂ := lt_two_zpow_log2 den
  set e : ℤ := num.log2 - den.log2 with he
  -- The quotient of the leading powers is at most one binade off.
  have hupper : (num : ℚ) / den < 2 ^ (e + 1) := by
    rw [div_lt_iff₀ hd]
    calc (num : ℚ) < 2 ^ (num.log2 + 1 : ℤ) := hn₂
      _ = 2 ^ (e + 1) * 2 ^ (den.log2 : ℤ) := by
        rw [← zpow_add₀ two_ne_zero]
        congr 1
        omega
      _ ≤ 2 ^ (e + 1) * den := by gcongr
  have hlower : (2 : ℚ) ^ (e - 1) < num / den := by
    rw [lt_div_iff₀ hd]
    calc (2 : ℚ) ^ (e - 1) * den < 2 ^ (e - 1) * 2 ^ (den.log2 + 1 : ℤ) := by gcongr
      _ = 2 ^ (num.log2 : ℤ) := by
        rw [← zpow_add₀ two_ne_zero]
        congr 1
        omega
      _ ≤ num := hn₁
  have hscaled := scaled_eq num den e
  have hd' : (0 : ℚ) < ((den * 2 ^ e.toNat : ℕ) : ℚ) := by positivity
  have hp : (0 : ℚ) < 2 ^ e := by positivity
  unfold binade
  dsimp only
  rw [← he]
  split
  · next hlt =>
    have : (num : ℚ) / den / 2 ^ e < 1 := by
      rw [← hscaled, div_lt_one hd']
      exact_mod_cast hlt
    rw [div_lt_one hp] at this
    exact ⟨hlower.le, by simpa using this⟩
  · next hge =>
    have : 1 ≤ (num : ℚ) / den / 2 ^ e := by
      rw [← hscaled, one_le_div hd']
      exact_mod_cast Nat.le_of_not_lt hge
    rw [one_le_div hp] at this
    exact ⟨this, hupper⟩

/-- The power of two at or below a fraction is the only one there. -/
theorem binade_eq {num den : ℕ} {e : ℤ} (hnum : 0 < num) (hden : 0 < den)
    (hlow : (2 : ℚ) ^ e ≤ num / den) (hhigh : (num : ℚ) / den < 2 ^ (e + 1)) :
    binade num den = e := by
  obtain ⟨hle, hlt⟩ := binade_spec hnum hden
  have h₁ := (zpow_lt_zpow_iff_right₀ (one_lt_two (α := ℚ))).1 (hle.trans_lt hhigh)
  have h₂ := (zpow_lt_zpow_iff_right₀ (one_lt_two (α := ℚ))).1 (hlow.trans_lt hlt)
  omega

/-! ## The interval of a double -/

/-- How far the interval of `m * 2 ^ q` reaches below it, in quarters of `2 ^ q`. -/
def reachBelow (m : ℕ) (q : ℤ) : ℚ := if Decimal.narrowBelow m q then 1 else 2

/-- Whether `v` lies in the interval of the numbers nearest to `m * 2 ^ q`. Lengths are in quarters
of `2 ^ q`. -/
structure Nearby (m : ℕ) (q : ℤ) (v : ℚ) : Prop where
  low_le : (4 * m - reachBelow m q) * 2 ^ q ≤ 4 * v
  le_high : 4 * v ≤ (4 * m + 2) * 2 ^ q
  even_of_tie : (4 * m - reachBelow m q) * 2 ^ q = 4 * v ∨ 4 * v = (4 * m + 2) * 2 ^ q →
    m % 2 = 0

theorem reachBelow_le (m : ℕ) (q : ℤ) : reachBelow m q ≤ 2 := by
  unfold reachBelow
  split <;> norm_num

theorem reachBelow_pos (m : ℕ) (q : ℤ) : 0 < reachBelow m q := by
  unfold reachBelow
  split <;> norm_num

/-- A double lies in its own interval. -/
theorem nearby_self (m : ℕ) (q : ℤ) : Nearby m q (m * 2 ^ q) := by
  have hp : (0 : ℚ) < 2 ^ q := by positivity
  have hreach := reachBelow_pos m q
  refine ⟨by nlinarith, by nlinarith, ?_⟩
  rintro (heq | heq) <;> nlinarith

namespace Nearby

variable {m : ℕ} {q : ℤ} {v : ℚ}

theorem pos (h : Nearby m q v) (hm : 0 < m) : 0 < v := by
  have hp : (0 : ℚ) < 2 ^ q := by positivity
  have hm' : (1 : ℚ) ≤ m := by exact_mod_cast hm
  have := reachBelow_le m q
  have := h.low_le
  nlinarith

/-- The interval in units of `2 ^ q`. -/
theorem scaled (h : Nearby m q v) :
    4 * (m : ℚ) - reachBelow m q ≤ 4 * (v / 2 ^ q) ∧ 4 * (v / 2 ^ q) ≤ 4 * m + 2 ∧
      (4 * (m : ℚ) - reachBelow m q = 4 * (v / 2 ^ q) ∨ 4 * (v / 2 ^ q) = 4 * m + 2 →
        m % 2 = 0) := by
  have hp : (0 : ℚ) < 2 ^ q := by positivity
  refine ⟨?_, ?_, ?_⟩
  · rw [← mul_div_assoc, le_div_iff₀ hp]
    exact h.low_le
  · rw [← mul_div_assoc, div_le_iff₀ hp]
    exact h.le_high
  · rw [← mul_div_assoc, eq_div_iff hp.ne', div_eq_iff hp.ne']
    exact h.even_of_tie

end Nearby

namespace Double

/-- A fraction whose binade has the exponent `q`, or lies below it when `q` is the least one, is
rounded in units of `2 ^ q`. -/
theorem max_binade_eq {num den : ℕ} {q : ℤ} (hnum : 0 < num) (hden : 0 < den)
    (hleast : leastExponent ≤ q) (hlt : (num : ℚ) / den / 2 ^ q < 2 ^ 53)
    (hge : (2 : ℚ) ^ 52 ≤ num / den / 2 ^ q ∨ q = leastExponent) :
    max leastExponent (binade num den - 52) = q := by
  have hp : (0 : ℚ) < 2 ^ q := by positivity
  rw [div_lt_iff₀ hp, ← zpow_natCast, ← zpow_add₀ two_ne_zero] at hlt
  obtain ⟨hle, _⟩ := binade_spec hnum hden
  have hbelow := (zpow_lt_zpow_iff_right₀ (one_lt_two (α := ℚ))).1 (hle.trans_lt hlt)
  rcases hge with hge | rfl
  · rw [le_div_iff₀ hp, ← zpow_natCast, ← zpow_add₀ two_ne_zero] at hge
    have hbinade : binade num den = 52 + q := by
      refine binade_eq hnum hden (by exact_mod_cast hge) ?_
      rw [show (52 : ℤ) + q + 1 = ((53 : ℕ) : ℤ) + q by push_cast; ring]
      exact hlt
    rw [hbinade]
    omega
  · push_cast at hbelow
    omega

/-- Rounding a fraction in the interval of a double gives that double. -/
theorem nearest_eq {m : ℕ} {q : ℤ} (hfits : Fits m q) (hm : 0 < m) {num den : ℕ} (hden : 0 < den)
    (h : Nearby m q (num / den)) (negative : Bool) :
    nearest negative num den = .finite negative m q := by
  have hd : (0 : ℚ) < den := by exact_mod_cast hden
  have hnum : 0 < num := by
    have hpos := h.pos hm
    rw [div_pos_iff_of_pos_right hd] at hpos
    exact_mod_cast hpos
  obtain ⟨hlow, hhigh, htie⟩ := h.scaled
  have hlt53 : (m : ℚ) + 1 ≤ 2 ^ 53 := by exact_mod_cast hfits.mantissa_lt
  have hbelow : (num : ℚ) / den / 2 ^ q < 2 ^ 53 := by linarith
  unfold nearest
  rw [if_neg hnum.ne']
  dsimp only
  by_cases hcase : (2 : ℚ) ^ 52 ≤ num / den / 2 ^ q ∨ q = leastExponent
  · -- The fraction is rounded in the unit of the double itself.
    rw [max_binade_eq hnum hden hfits.least_le hbelow hcase]
    have hround : roundHalfEven (num * 2 ^ (-q).toNat) (den * 2 ^ q.toNat) = m := by
      have hreach := reachBelow_le m q
      apply roundHalfEven_eq (by positivity) <;> rw [scaled_eq]
      · linarith
      · linarith
      · rintro (heq | heq)
        · exact htie (.inl (by linarith))
        · exact htie (.inr (by linarith))
    simp only [Nat.pow_eq]
    rw [hround, if_neg hfits.mantissa_lt.ne, bounded, if_neg (not_lt.2 hfits.le_greatest)]
  · -- The double is a power of two and the fraction lies below it, where units are half as long.
    push Not at hcase
    obtain ⟨hsmall, hq⟩ := hcase
    have hfull : 2 ^ 52 ≤ m := hfits.full.resolve_right hq
    have hfull' : (2 : ℚ) ^ 52 ≤ m := by exact_mod_cast hfull
    have hreach := reachBelow_le m q
    obtain rfl : m = 2 ^ 52 := by
      have : (m : ℚ) < 2 ^ 52 + 1 := by linarith
      have : m < 2 ^ 52 + 1 := by exact_mod_cast this
      omega
    have hleast : leastExponent < q := lt_of_le_of_ne hfits.least_le (Ne.symm hq)
    have hreach : reachBelow (2 ^ 52) q = 1 := by
      simp [reachBelow, Decimal.narrowBelow, hleast]
    rw [hreach] at hlow
    have hhalf : (num : ℚ) / den / 2 ^ (q - 1) = 2 * (num / den / 2 ^ q) := by
      rw [zpow_sub_one₀ two_ne_zero]
      field_simp
    rw [max_binade_eq (q := q - 1) hnum hden (by omega) (by rw [hhalf]; linarith)
      (.inl (by rw [hhalf]; push_cast at hlow; linarith))]
    have hround :
        roundHalfEven (num * 2 ^ (-(q - 1)).toNat) (den * 2 ^ (q - 1).toNat) = 2 ^ 53 := by
      push_cast at hlow
      apply roundHalfEven_eq (by positivity) <;> rw [scaled_eq, hhalf] <;> push_cast
      · linarith
      · linarith
      · intro _
        decide
    simp only [Nat.pow_eq]
    rw [hround, if_pos rfl, bounded, if_neg (by have := hfits.le_greatest; omega)]
    congr 1
    omega

end Double

/-! ## Decimals in the interval -/

/-- The rational number that a decimal writes. -/
def Decimal.value (d : Decimal) : ℚ := d.coefficient * 10 ^ d.exponent

/-- A decimal as the fraction that is rounded when it is read. -/
theorem Decimal.value_eq_div (d : Decimal) :
    d.value = ((d.coefficient * 10 ^ d.exponent.toNat : ℕ) : ℚ) / (10 ^ (-d.exponent).toNat : ℕ) := by
  rw [value, zpow_eq_toNat_div 10 d.exponent]
  push_cast
  rw [mul_div_assoc]

namespace Nearby

variable {m : ℕ} {q : ℤ} {v : ℚ}

/-- The interval of a double ends far below `10 ^ 401`. -/
theorem lt_bound (h : Nearby m q v) (hfits : Fits m q) : v < 10 ^ (401 : ℤ) := by
  have hm : (m : ℚ) + 1 ≤ 2 ^ 53 := by exact_mod_cast hfits.mantissa_lt
  have hp : (0 : ℚ) < 2 ^ q := by positivity
  calc v ≤ (m + 1) * 2 ^ q := by linarith [h.le_high]
    _ ≤ 2 ^ 53 * 2 ^ (971 : ℤ) := by
      gcongr
      · norm_num
      · exact hfits.le_greatest
    _ = 2 ^ (1024 : ℤ) := by
      rw [← zpow_natCast, ← zpow_add₀ two_ne_zero]
      norm_num
    _ < 2 ^ ((3 : ℤ) * 401) := zpow_lt_zpow_right₀ one_lt_two (by norm_num)
    _ = (2 ^ (3 : ℤ)) ^ (401 : ℤ) := zpow_mul 2 3 401
    _ ≤ 10 ^ (401 : ℤ) := zpow_le_zpow_left₀ (by norm_num) (by norm_num) (by norm_num)

/-- The interval of a double starts far above `10 ^ (-400)`. -/
theorem bound_lt (h : Nearby m q v) (hfits : Fits m q) (hm : 0 < m) :
    (10 : ℚ) ^ (-400 : ℤ) < v := by
  have hm' : (1 : ℚ) ≤ m := by exact_mod_cast hm
  have hp : (2 : ℚ) ^ (-1074 : ℤ) ≤ 2 ^ q := zpow_le_zpow_right₀ one_le_two hfits.least_le
  have hq : (0 : ℚ) < 2 ^ q := by positivity
  have hhalf : (2 : ℚ) ^ (-1074 : ℤ) ≤ 2 * v := by
    have := reachBelow_le m q
    have := h.low_le
    nlinarith
  have hdouble : (2 : ℚ) ^ (-1074 : ℤ) = 2 * 2 ^ (-1075 : ℤ) := by
    rw [← zpow_one_add₀ two_ne_zero]
    norm_num
  calc (10 : ℚ) ^ (-400 : ℤ) = ((10 : ℚ) ^ (400 : ℤ))⁻¹ := zpow_neg 10 400
    _ ≤ ((2 ^ (3 : ℤ) : ℚ) ^ (400 : ℤ))⁻¹ := by
      refine inv_anti₀ (by positivity) ?_
      exact zpow_le_zpow_left₀ (by norm_num) (by norm_num) (by norm_num)
    _ = 2 ^ (-1200 : ℤ) := by rw [← zpow_mul, ← zpow_neg]; norm_num
    _ < 2 ^ (-1075 : ℤ) := zpow_lt_zpow_right₀ one_lt_two (by norm_num)
    _ ≤ v := by linarith

end Nearby

/-- Reading a decimal in the interval of a double gives that double. -/
theorem Double.ofDecimal_eq {m : ℕ} {q : ℤ} (hfits : Fits m q) (hm : 0 < m) {d : Decimal}
    (h : Nearby m q d.value) (negative : Bool) :
    ofDecimal negative d = .finite negative m q := by
  have hpos := h.pos hm
  have hcoefficient : d.coefficient ≠ 0 := by
    intro hzero
    rw [Decimal.value, hzero, Nat.cast_zero, zero_mul] at hpos
    exact lt_irrefl 0 hpos
  have hone : (1 : ℚ) ≤ d.coefficient := by exact_mod_cast Nat.one_le_iff_ne_zero.2 hcoefficient
  unfold ofDecimal
  rw [if_neg hcoefficient, if_neg, if_neg]
  · rw [Decimal.value_eq_div] at h
    exact nearest_eq hfits hm (by positivity) h negative
  · -- A coefficient of so few digits cannot make up for the exponent.
    intro hlow
    have hupper : d.value < 10 ^ (d.coefficient.log2 + 1 + d.exponent : ℤ) := by
      rw [zpow_add₀ (by norm_num), Decimal.value]
      have hlog := lt_two_zpow_log2 d.coefficient
      have hten : (2 : ℚ) ^ (d.coefficient.log2 + 1 : ℤ) ≤ 10 ^ (d.coefficient.log2 + 1 : ℤ) := by
        rw [← Nat.cast_add_one, zpow_natCast, zpow_natCast]
        gcongr
        norm_num
      gcongr
      exact hlog.trans_le hten
    have hle : (10 : ℚ) ^ (d.coefficient.log2 + 1 + d.exponent : ℤ) ≤ 10 ^ (-400 : ℤ) :=
      zpow_le_zpow_right₀ (by norm_num) (by omega)
    have := h.bound_lt hfits hm
    linarith
  · intro hhigh
    have hlower : (10 : ℚ) ^ (401 : ℤ) ≤ d.value := by
      calc (10 : ℚ) ^ (401 : ℤ) ≤ 10 ^ d.exponent := zpow_le_zpow_right₀ (by norm_num) (by omega)
        _ ≤ d.coefficient * 10 ^ d.exponent := le_mul_of_one_le_left (by positivity) hone
    have := h.lt_bound hfits
    linarith

/-! ## The shortest decimal -/

namespace Decimal

/-- The test on natural numbers, with its parts named: a decimal that reads back lies between two
ends, and strictly so unless the mantissa is even. -/
theorem parts_of_readsBack {m : ℕ} {q : ℤ} {g : ℕ} {k : ℤ} (h : readsBack m q g k = true) :
    ∃ unit point low high : ℕ,
      unit = 2 ^ q.toNat * 10 ^ (-k).toNat ∧ point = 4 * g * (2 ^ (-q).toNat * 10 ^ k.toNat) ∧
      low = (4 * m - if narrowBelow m q then 1 else 2) * unit ∧ high = (4 * m + 2) * unit ∧
      low ≤ point ∧ point ≤ high ∧ (low = point ∨ point = high → m % 2 = 0) := by
  refine ⟨_, _, _, _, rfl, rfl, rfl, rfl, ?_⟩
  unfold readsBack at h
  simp only [Nat.pow_eq] at h
  generalize 2 ^ q.toNat * 10 ^ (-k).toNat = unit at h ⊢
  generalize (4 * m - if narrowBelow m q then 1 else 2) * unit = low at h ⊢
  split at h <;> simp only [Bool.and_eq_true, decide_eq_true_eq] at h <;> omega

/-- The test on natural numbers finds decimals in the interval. -/
theorem nearby_of_readsBack {m : ℕ} {q : ℤ} {g : ℕ} {k : ℤ} (hm : 0 < m)
    (h : readsBack m q g k = true) : Nearby m q (value ⟨g, k⟩) := by
  obtain ⟨unit, point, low, high, hunit, hpoint, hlow, hhigh, hle, hge, htie⟩ :=
    parts_of_readsBack h
  -- All four numbers are the interval's own, multiplied by this factor.
  set s : ℚ := 2 ^ (-q).toNat * 10 ^ (-k).toNat with hs
  have hspos : 0 < s := by positivity
  have hunit' : (unit : ℚ) = 2 ^ q * s := by
    rw [hunit, zpow_eq_toNat_div 2 q, hs]
    push_cast
    field_simp
  have hpoint' : (point : ℚ) = 4 * value ⟨g, k⟩ * s := by
    rw [hpoint, value, zpow_eq_toNat_div 10 k, hs]
    push_cast
    field_simp
  have hlow' : (low : ℚ) = (4 * m - reachBelow m q) * 2 ^ q * s := by
    have hsub : (if narrowBelow m q then 1 else 2) ≤ 4 * m := by split <;> omega
    rw [hlow, Nat.cast_mul, Nat.cast_sub hsub, hunit', reachBelow]
    push_cast
    ring
  have hhigh' : (high : ℚ) = (4 * m + 2) * 2 ^ q * s := by
    rw [hhigh, Nat.cast_mul, hunit']
    push_cast
    ring
  refine ⟨?_, ?_, ?_⟩
  · have : (low : ℚ) ≤ point := by exact_mod_cast hle
    rw [hlow', hpoint'] at this
    exact le_of_mul_le_mul_right this hspos
  · have : (point : ℚ) ≤ high := by exact_mod_cast hge
    rw [hhigh', hpoint'] at this
    exact le_of_mul_le_mul_right this hspos
  · rintro (heq | heq)
    · refine htie (.inl ?_)
      have : (low : ℚ) = point := by rw [hlow', hpoint', heq]
      exact_mod_cast this
    · refine htie (.inr ?_)
      have : (point : ℚ) = high := by rw [hhigh', hpoint', heq]
      exact_mod_cast this

theorem nearby_of_onGrid {m : ℕ} {q k : ℤ} {d : Decimal} (hm : 0 < m)
    (h : onGrid? m q k = some d) : Nearby m q d.value := by
  unfold onGrid? at h
  dsimp only at h
  generalize roundHalfEven _ _ = near at h
  generalize (if near = _ then _ else _) = far at h
  split at h
  · next hnear =>
    cases h
    exact nearby_of_readsBack hm hnear
  · split at h
    · next hfar =>
      cases h
      exact nearby_of_readsBack hm hfar
    · cases h

/-- All digits of a double write the double itself. -/
theorem value_exact (m : ℕ) (q : ℤ) : (exact m q).value = m * 2 ^ q := by
  unfold exact value
  split
  · next hq =>
    rw [zpow_eq_toNat_div 2 q]
    have : (-q).toNat = 0 := by omega
    simp [this]
  · next hq =>
    obtain ⟨n, hn⟩ := Int.eq_ofNat_of_zero_le (show 0 ≤ -q by omega)
    obtain rfl : q = -(n : ℤ) := by omega
    have : (10 : ℚ) ^ n = 5 ^ n * 2 ^ n := by rw [← mul_pow]; norm_num
    simp only [neg_neg, Int.toNat_natCast, zpow_neg, zpow_natCast, this, Nat.pow_eq]
    push_cast
    field_simp

/-- The shortest decimal of a double lies in its interval. -/
theorem nearby_shortest {m : ℕ} (q : ℤ) (hm : 0 < m) : Nearby m q (shortest m q).value := by
  unfold shortest
  dsimp only
  cases hfind : (List.range 18).findSome? fun i : ℕ =>
      onGrid? m q (decade (m * 2 ^ q.toNat) (2 ^ (-q).toNat) + 1 - i) with
  | none =>
    rw [Option.getD_none, value_exact]
    exact nearby_self m q
  | some d =>
    obtain ⟨i, _, hgrid⟩ := List.exists_of_findSome?_eq_some hfind
    rw [Option.getD_some]
    exact nearby_of_onGrid hm hgrid

end Decimal

end Planar
