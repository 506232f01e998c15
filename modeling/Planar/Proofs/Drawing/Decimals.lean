import Mathlib.Data.List.DropRight
import Planar.Proofs.Number.Numerals
import Planar.Proofs.Run.Transparency

/-!
# Numbers in pictures

A picture writes a number rounded to a number of places, of two equally near multiples the even one,
and drops the zeros at the end of the text and then a point. After a point the zeros do not count.
Without places there is no point, and the zeros are those of the number: ten becomes one, and of a
negative number that is rounded to zero only the minus sign is left.

* `IsRounding`, `IsRounding.unique` — rounding half to even, and that it has one result;
* `isRounding_usefulPlaces` — places beyond those of a binary fraction do not change what is rounded;
* `exists_dropZeros`, `exists_trimmed` — the zeros that are dropped, and the numeral that is left;
* `Writes` — what the text of a number has to be;
* `drawnNumber_writes_iff` — it is that, except for numbers without places that lose digits, and for
  more places than there can be;
* `drawNumber_ten` — ten without places.
-/

namespace Planar

open Text (digitsValue)

/-! ## Rounding half to even -/

/-- Whether `u` is the multiple of `10 ^ -places` that is nearest to `v`; of two equally near ones
the even one. -/
def IsRounding (v : ℚ) (places : ℕ) (u : ℚ) : Prop :=
  ∃ k : ℤ, u = k / 10 ^ places ∧ |v * 10 ^ places - k| ≤ 1 / 2 ∧
    (|v * 10 ^ places - k| = 1 / 2 → Even k)

/-- There is only one nearest multiple. -/
theorem IsRounding.unique {v u u' : ℚ} {places : ℕ} (h : IsRounding v places u)
    (h' : IsRounding v places u') : u = u' := by
  obtain ⟨k, rfl, hnear, hcase⟩ := h
  obtain ⟨k', rfl, hnear', hcase'⟩ := h'
  generalize v * 10 ^ places = x at hnear hcase hnear' hcase'
  suffices heq : k = k' by rw [heq]
  have apart {k k' : ℤ} (hlt : k < k') (hnear : |x - k| ≤ 1 / 2) (hnear' : |x - k'| ≤ 1 / 2)
      (hcase : |x - k| = 1 / 2 → Even k) (hcase' : |x - k'| = 1 / 2 → Even k') : False := by
    have hstep : (k : ℚ) + 1 ≤ k' := by exact_mod_cast hlt
    rw [abs_le] at hnear hnear'
    -- both are half a unit away, on either side, so they are neighbours
    have hx : x - k = 1 / 2 := by linarith
    have hx' : x - k' = -(1 / 2) := by linarith
    have heven := hcase (by rw [hx]; norm_num)
    have heven' := hcase' (by rw [hx']; norm_num)
    have hnext : k' = k + 1 := by
      have hcast : (k' : ℚ) = k + 1 := by linarith
      exact_mod_cast hcast
    rw [hnext] at heven'
    exact absurd heven' (by simpa [Int.even_add_one] using heven)
  rcases lt_trichotomy k k' with hlt | heq | hlt
  · exact (apart hlt hnear hnear' hcase hcase').elim
  · exact heq
  · exact (apart hlt hnear' hnear hcase' hcase).elim

theorem IsRounding.neg {v u : ℚ} {places : ℕ} (h : IsRounding v places u) :
    IsRounding (-v) places (-u) := by
  obtain ⟨k, rfl, hnear, hcase⟩ := h
  have hdist : |-v * 10 ^ places - (-k : ℤ)| = |v * 10 ^ places - k| := by
    rw [← abs_neg]
    congr 1
    push_cast
    ring
  refine ⟨-k, by push_cast; ring, ?_, ?_⟩
  · rwa [hdist]
  · intro heq
    rw [hdist] at heq
    exact (hcase heq).neg

/-- A multiple is its own rounding. -/
theorem isRounding_self {v : ℚ} {places : ℕ} (k : ℤ) (h : v * 10 ^ places = k) :
    IsRounding v places v := by
  refine ⟨k, ?_, ?_, ?_⟩
  · rw [eq_div_iff (by positivity), h]
  · rw [h, sub_self, abs_zero]
    norm_num
  · rw [h, sub_self, abs_zero]
    norm_num

/-- A fraction halfway between two numbers is rounded to an even one. -/
theorem roundHalfEven_mod_two (num : ℕ) {den : ℕ} (hden : 0 < den)
    (h : 2 * num + den = 2 * (roundHalfEven num den * den) ∨
      2 * num = 2 * (roundHalfEven num den * den) + den) : roundHalfEven num den % 2 = 0 := by
  have hsplit := Nat.div_add_mod num den
  have hrest := Nat.mod_lt num hden
  have hcomm : den * (num / den) = num / den * den := Nat.mul_comm _ _
  unfold roundHalfEven at h ⊢
  dsimp only at h ⊢
  split at h
  · omega
  · split at h
    · rw [Nat.add_mul] at h
      omega
    · rw [if_neg ‹_›, if_neg ‹_›]
      omega

/-- Rounding a fraction at so many places. -/
theorem isRounding_roundHalfEven (num : ℕ) {den : ℕ} (hden : 0 < den) (places : ℕ) :
    IsRounding (num / den) places (roundHalfEven (num * 10 ^ places) den / 10 ^ places) := by
  have hd : (0 : ℚ) < den := by exact_mod_cast hden
  have hle := two_mul_roundHalfEven_mul_le (num * 10 ^ places) den
  have hge := le_two_mul_roundHalfEven_mul (num * 10 ^ places) den hden
  have htie := roundHalfEven_mod_two (num * 10 ^ places) hden
  generalize roundHalfEven (num * 10 ^ places) den = n at hle hge htie
  have hdist : (num / den : ℚ) * 10 ^ places - (n : ℤ) = (num * 10 ^ places - n * den) / den := by
    push_cast
    field_simp
  refine ⟨n, by push_cast; rfl, ?_, ?_⟩
  · rw [hdist, abs_div, abs_of_pos hd, div_le_iff₀ hd, abs_le]
    have hle : 2 * ((n : ℚ) * den) ≤ 2 * (num * 10 ^ places) + den := by exact_mod_cast hle
    have hge : 2 * (num * 10 ^ places) ≤ 2 * ((n : ℚ) * den) + den := by exact_mod_cast hge
    constructor <;> linarith
  · intro heq
    rw [hdist, abs_div, abs_of_pos hd, div_eq_iff hd.ne'] at heq
    have heven : n % 2 = 0 := by
      refine htie ?_
      rcases (abs_eq (by positivity)).1 heq with heq | heq
      · right
        have hcast : 2 * ((num : ℚ) * 10 ^ places) = 2 * (n * den) + den := by linarith
        exact_mod_cast hcast
      · left
        have hcast : 2 * ((num : ℚ) * 10 ^ places) + den = 2 * (n * den) := by linarith
        exact_mod_cast hcast
    exact (Int.even_coe_nat n).2 (Nat.even_iff.2 heven)

theorem roundHalfEven_of_dvd {num den : ℕ} (hden : 0 < den) (h : den ∣ num) :
    roundHalfEven num den = num / den := by
  unfold roundHalfEven
  dsimp only
  rw [Nat.mod_eq_zero_of_dvd h, if_pos (by omega)]

theorem usefulPlaces_eq_zero_iff (places den : ℕ) : usefulPlaces places den = 0 ↔ places = 0 := by
  unfold usefulPlaces
  split
  · omega
  · exact Iff.rfl

/-- Rounding at the places that are worth writing is rounding at the places that are asked for: a
fraction whose denominator is a power of two has no more places than the power has factors. -/
theorem isRounding_usefulPlaces {num den : ℕ} (hden : 0 < den) (places : ℕ) :
    IsRounding (num / den) places
      (roundHalfEven (num * 10 ^ usefulPlaces places den) den / 10 ^ usefulPlaces places den) := by
  unfold usefulPlaces
  split
  case isFalse => exact isRounding_roundHalfEven num hden places
  case isTrue hpow =>
    rcases Nat.le_total places (den.log2 + 1) with hle | hle
    · rw [min_eq_left hle]
      exact isRounding_roundHalfEven num hden places
    · rw [min_eq_right hle]
      have hd : (den : ℚ) ≠ 0 := by exact_mod_cast hden.ne'
      have hdvd : den ∣ num * 10 ^ (den.log2 + 1) := by
        have hten : den ∣ 10 ^ (den.log2 + 1) := by
          calc den = 2 ^ den.log2 := hpow
            _ ∣ 2 ^ (den.log2 + 1) := pow_dvd_pow 2 (Nat.le_succ _)
            _ ∣ 10 ^ (den.log2 + 1) := pow_dvd_pow_of_dvd (by norm_num) _
        exact hten.mul_left num
      have hexact : (roundHalfEven (num * 10 ^ (den.log2 + 1)) den : ℚ) / 10 ^ (den.log2 + 1) =
          num / den := by
        rw [roundHalfEven_of_dvd hden hdvd, Nat.cast_div hdvd hd]
        push_cast
        field_simp
      rw [hexact]
      obtain ⟨m, hm⟩ := hdvd
      refine isRounding_self (m * 10 ^ (places - (den.log2 + 1)) : ℕ) ?_
      have hm : (num : ℚ) * 10 ^ (den.log2 + 1) = den * m := by exact_mod_cast hm
      rw [← Nat.add_sub_cancel' hle, pow_add, ← mul_assoc, div_mul_eq_mul_div, hm,
        mul_div_cancel_left₀ _ hd]
      push_cast
      rw [Nat.add_sub_cancel_left]

/-! ## Zeros and points at the end -/

section Ends

variable {cs : List Char}

theorem dropZeros_eq_self (h : cs.getLast? ≠ some '0') : dropZeros cs = cs := by
  refine List.rdropWhile_eq_self_iff.2 fun hne hzero => h ?_
  rw [List.getLast?_eq_some_getLast hne, beq_iff_eq.1 hzero]

theorem dropPoints_eq_self (h : cs.getLast? ≠ some '.') : dropPoints cs = cs := by
  refine List.rdropWhile_eq_self_iff.2 fun hne hpoint => h ?_
  rw [List.getLast?_eq_some_getLast hne, beq_iff_eq.1 hpoint]

theorem dropPoints_append_point (h : cs.getLast? ≠ some '.') : dropPoints (cs ++ ['.']) = cs :=
  (List.rdropWhile_concat_pos _ _ _ rfl).trans (dropPoints_eq_self h)

/-- What is dropped are zeros, and what is left does not end in one. -/
theorem exists_dropZeros (cs : List Char) :
    ∃ k, cs = dropZeros cs ++ List.replicate k '0' ∧ (dropZeros cs).getLast? ≠ some '0' := by
  refine ⟨(cs.rtakeWhile (· == '0')).length, ?_, ?_⟩
  · have hzeros : cs.rtakeWhile (· == '0') =
        List.replicate (cs.rtakeWhile (· == '0')).length '0' :=
      List.eq_replicate_iff.2
        ⟨rfl, fun c hc => beq_iff_eq.1 (List.mem_rtakeWhile_imp (p := (· == '0')) hc)⟩
    rw [← hzeros]
    exact List.rdropWhile_append_rtakeWhile.symm
  · intro hlast
    obtain ⟨front, hfront⟩ := List.getLast?_eq_some_iff.1 hlast
    have hne : cs.rdropWhile (· == '0') ≠ [] := fun hnil => by
      rw [dropZeros, ← List.rdropWhile, hnil] at hfront
      simp at hfront
    refine List.rdropWhile_last_not (· == '0') cs hne (beq_iff_eq.2 ?_)
    exact Option.some.inj ((List.getLast?_eq_some_getLast hne).symm.trans hlast)

/-- Zeros are dropped only as far as the last character that is none. -/
theorem dropZeros_append_cons (front : List Char) {c : Char} (hc : c ≠ '0') (cs : List Char) :
    dropZeros (front ++ c :: cs) = front ++ c :: dropZeros cs := by
  have hstop : (c :: front.reverse).dropWhile (· == '0') = c :: front.reverse :=
    List.dropWhile_cons_of_neg (by simpa using hc)
  rw [dropZeros, dropZeros, List.reverse_append, List.reverse_cons, List.append_assoc,
    List.singleton_append, List.dropWhile_append, hstop]
  split
  · next hnil => simp [List.isEmpty_iff.1 hnil]
  · simp

theorem isDigit_of_mem_dropZeros (h : ∀ c ∈ cs, c.isDigit = true) :
    ∀ c ∈ dropZeros cs, c.isDigit = true :=
  fun c hc => h c ((List.rdropWhile_prefix (· == '0') cs).subset hc)

theorem dropZeros_signed (negative : Bool) (cs : List Char) :
    dropZeros (signed negative cs) = signed negative (dropZeros cs) := by
  cases negative with
  | false => rfl
  | true => exact dropZeros_append_cons [] (by decide) cs

end Ends

/-! ## Numerals with so many places -/

/-- The last digit decides whether a number is a multiple of ten. -/
theorem Text.digitsValue_mod_ten {ds : List Char} (h : ∀ c ∈ ds, c.isDigit = true) (hne : ds ≠ []) :
    digitsValue ds % 10 = 0 ↔ ds.getLast? = some '0' := by
  obtain ⟨front, c, rfl⟩ := ds.eq_nil_or_concat'.resolve_left hne
  have hdigit : c.isDigit = true := h c (by simp)
  have hrange : 48 ≤ c.toNat ∧ c.toNat ≤ 57 := Char.isDigit_iff_toNat.1 hdigit
  have hvalue : digitsValue [c] = c.toNat - 48 := by
    simp [digitsValue, digitValue?_of_isDigit hdigit]
  have hzero : c = '0' ↔ c.toNat = 48 := by
    rw [← Char.toNat_inj]
    rfl
  rw [digitsValue_append, hvalue, List.length_singleton, pow_one, List.getLast?_concat,
    Option.some_inj, hzero]
  omega

/-- A number that is written out with so many places is a row of digits, cut before these. -/
theorem exists_fixedChars (places num den : ℕ) :
    ∃ whole fraction, whole ≠ [] ∧ (∀ c ∈ whole ++ fraction, c.isDigit = true) ∧
      fraction.length = places ∧
      digitsValue (whole ++ fraction) = roundHalfEven (num * 10 ^ places) den ∧
      fixedChars places num den = if places = 0 then whole else whole ++ '.' :: fraction := by
  set n := roundHalfEven (num * 10 ^ places) den with hn
  set ds := List.replicate (places + 1 - (Nat.toDigits 10 n).length) '0' ++ Nat.toDigits 10 n
    with hds
  have hlength : places + 1 ≤ ds.length := by
    rw [hds, List.length_append, List.length_replicate]
    omega
  have hcut : ds.take (ds.length - places) ++ ds.drop (ds.length - places) = ds :=
    List.take_append_drop _ _
  refine ⟨ds.take (ds.length - places), ds.drop (ds.length - places), ?_, ?_, ?_, ?_, rfl⟩
  · intro hnil
    have hzero := congrArg List.length hnil
    rw [List.length_take, List.length_nil] at hzero
    omega
  · intro c hc
    rw [hcut, hds] at hc
    rcases List.mem_append.1 hc with hc | hc
    · rw [List.eq_of_mem_replicate hc]
      rfl
    · exact Nat.isDigit_of_mem_toDigits (by norm_num) le_rfl hc
  · rw [List.length_drop]
    omega
  · rw [hcut, hds, Text.digitsValue_zeros_append, Text.digitsValue_toDigits]

namespace Numeral

/-- The shape of a plain numeral: at least one digit, and then a point with digits that do not end in
a zero, or nothing. -/
structure IsPlain (n : Numeral) : Prop where
  whole_digits : ∀ c ∈ n.whole, c.isDigit = true
  whole_ne : n.whole ≠ []
  fraction_digits : ∀ f ∈ n.fraction, ∀ c ∈ f, c.isDigit = true
  fraction_ne : ∀ f ∈ n.fraction, f ≠ []
  last_ne : ∀ f ∈ n.fraction, f.getLast? ≠ some '0'
  exponent : n.exponent = none

theorem IsPlain.chars_eq {n : Numeral} (h : n.IsPlain) :
    n.chars = n.whole ++ n.fraction.elim [] ('.' :: ·) := by
  rw [chars, h.exponent, Option.elim_none, List.append_nil]

theorem IsPlain.of_whole {ds : List Char} (h : ∀ c ∈ ds, c.isDigit = true) (hne : ds ≠ []) :
    (⟨ds, none, none⟩ : Numeral).IsPlain := ⟨h, hne, nofun, nofun, nofun, rfl⟩

theorem value_of_whole (ds : List Char) :
    (⟨ds, none, none⟩ : Numeral).toDecimal.value = digitsValue ds := by
  simp [Decimal.value, toDecimal]

/-- The text of a plain numeral starts with a digit. -/
theorem IsPlain.head_chars {n : Numeral} (h : n.IsPlain) : n.chars.head? ≠ some '-' := by
  obtain ⟨c, cs, hwhole⟩ := List.exists_cons_of_ne_nil h.whole_ne
  rw [h.chars_eq, hwhole]
  intro heq
  obtain rfl : c = '-' := Option.some.inj heq
  exact absurd (h.whole_digits '-' (by simp [hwhole])) (by decide)

/-- A plain numeral of which the whole text is a row of digits. -/
theorem IsPlain.eq_of_chars {n : Numeral} (h : n.IsPlain) {ds : List Char}
    (hds : ∀ c ∈ ds, c.isDigit = true) (heq : n.chars = ds) : n = ⟨ds, none, none⟩ := by
  have hexponent := h.exponent
  rw [h.chars_eq] at heq
  obtain ⟨whole, fraction, exponent⟩ := n
  cases fraction with
  | none =>
    obtain rfl : exponent = none := hexponent
    rw [Option.elim_none, List.append_nil] at heq
    rw [← heq]
  | some f =>
    have hpoint : '.' ∈ ds := heq ▸ by simp
    exact absurd (hds '.' hpoint) (by decide)

end Numeral

theorem not_mem_of_digits {ds : List Char} (h : ∀ c ∈ ds, c.isDigit = true) {c : Char}
    (hc : c.isDigit = false) : c ∉ ds := fun hmem => absurd ((h c hmem).symm.trans hc) nofun

theorem getLast?_signed_ne {negative : Bool} {ds : List Char} (h : ∀ c ∈ ds, c.isDigit = true) :
    (signed negative ds).getLast? ≠ some '.' := by
  intro hlast
  have hmem := List.mem_of_getLast? hlast
  have hnot : '.' ∉ ds := not_mem_of_digits h rfl
  cases negative with
  | false => exact hnot hmem
  | true => exact hnot ((List.mem_cons.1 hmem).resolve_left (by decide))

theorem signed_append (negative : Bool) (a b : List Char) :
    signed negative (a ++ b) = signed negative a ++ b := by
  cases negative <;> rfl

/-- With places after a point, what is left when the zeros at the end are dropped is a plain numeral
of the same value. -/
theorem exists_trimmed (negative : Bool) {places : ℕ} (hplaces : places ≠ 0) (num den : ℕ) :
    ∃ n : Numeral, n.IsPlain ∧
      n.toDecimal.value = roundHalfEven (num * 10 ^ places) den / 10 ^ places ∧
      dropPoints (dropZeros (signed negative (fixedChars places num den))) =
        signed negative n.chars := by
  obtain ⟨whole, fraction, hne, hdigits, hlength, hvalue, hchars⟩ :=
    exists_fixedChars places num den
  obtain ⟨k, hk, hlast⟩ := exists_dropZeros fraction
  have hwhole : ∀ c ∈ whole, c.isDigit = true := fun c hc => hdigits c (List.mem_append_left _ hc)
  rw [hchars, if_neg hplaces, dropZeros_signed, dropZeros_append_cons _ (by decide)]
  generalize dropZeros fraction = f at hk hlast
  subst hk
  rw [List.length_append, List.length_replicate] at hlength
  have hscale : (10 : ℚ) ^ places = 10 ^ f.length * 10 ^ k := by rw [← hlength, pow_add]
  rw [← List.append_assoc, Text.digitsValue_append_zeros] at hvalue
  have hten : (10 : ℚ) ^ k ≠ 0 := by positivity
  rw [← hvalue, hscale]
  push_cast
  rw [mul_div_mul_right _ _ hten]
  by_cases hf : f = []
  · subst hf
    refine ⟨⟨whole, none, none⟩, .of_whole hwhole hne, ?_, ?_⟩
    · simp [Numeral.value_of_whole]
    · rw [signed_append, dropPoints_append_point (getLast?_signed_ne hwhole)]
      simp [Numeral.chars]
  · have hfdigits : ∀ c ∈ f, c.isDigit = true := fun c hc => hdigits c (by simp [hc])
    refine ⟨⟨whole, some f, none⟩, ⟨hwhole, hne, ?_, ?_, ?_, rfl⟩, ?_, ?_⟩
    · exact fun g hg => Option.some.inj hg ▸ hfdigits
    · exact fun g hg => Option.some.inj hg ▸ hf
    · exact fun g hg => Option.some.inj hg ▸ hlast
    · simp [Decimal.value, Numeral.toDecimal, zpow_neg, div_eq_mul_inv]
    · rw [dropPoints_eq_self]
      · simp [Numeral.chars]
      · rw [signed_append, List.append_cons, List.getLast?_append_of_ne_nil _ hf]
        exact fun hpoint => not_mem_of_digits hfdigits rfl (List.mem_of_getLast? hpoint)

/-! ## What a picture writes -/

/-- A number with its sign turned round if the flag is set. -/
def signedNumber (negative : Bool) (v : ℚ) : ℚ := if negative then -v else v

theorem signedNumber_eq (negative : Bool) (v : ℚ) :
    signedNumber negative v = v ∨ signedNumber negative v = -v := by
  cases negative
  · exact .inl rfl
  · exact .inr rfl

theorem signedNumber_inj {negative : Bool} {u v : ℚ}
    (h : signedNumber negative u = signedNumber negative v) : u = v := by
  cases negative with
  | false => exact h
  | true => exact neg_inj.1 h

theorem IsRounding.signed {v u : ℚ} {places : ℕ} (h : IsRounding v places u) (negative : Bool) :
    IsRounding (signedNumber negative v) places (signedNumber negative u) := by
  cases negative with
  | false => exact h
  | true => exact h.neg

/-- Whether a text is a plain numeral, after a minus sign or not, of a number rounded to so many
places, and not a zero with a minus sign. -/
structure Writes (s : String) (v : ℚ) (places : ℕ) : Prop where
  not_zero : s ≠ "-0"
  reads : ∃ (negative : Bool) (n : Numeral), n.IsPlain ∧ s = String.ofList (signed negative n.chars) ∧
    IsRounding v places (signedNumber negative n.toDecimal.value)

/-- Whether a number loses digits when it is written without places: it is rounded to a multiple of
ten, and if this is zero, then it has a minus sign. -/
def LosesDigits (negative : Bool) (v : ℚ) : Prop :=
  ∃ k : ℤ, IsRounding (signedNumber negative v) 0 k ∧ 10 ∣ k ∧ (k = 0 → negative = true)

/-- What is left of a text as a number: nothing and a zero with a minus sign are zero. -/
def tidied (cs : List Char) : String := if cs = [] ∨ cs = ['-', '0'] then "0" else String.ofList cs

/-- The text of a fraction in a picture. -/
def Ratio.text (r : Ratio) (places : ℕ) : String :=
  tidied (dropPoints (dropZeros
    (signed r.negative (fixedChars (usefulPlaces places r.den) r.num r.den))))

theorem signed_inj {negative negative' : Bool} {a b : List Char} (ha : a.head? ≠ some '-')
    (hb : b.head? ≠ some '-') (h : signed negative a = signed negative' b) :
    negative = negative' ∧ a = b := by
  cases negative <;> cases negative'
  · exact ⟨rfl, h⟩
  · exact absurd (congrArg List.head? h) ha
  · exact absurd (congrArg List.head? h).symm hb
  · exact ⟨rfl, (List.cons.inj h).2⟩

theorem isDigit_of_mem_zero : ∀ c ∈ ['0'], c.isDigit = true :=
  List.forall_mem_singleton.2 rfl

theorem value_zero : (⟨['0'], none, none⟩ : Numeral).toDecimal.value = 0 := by
  have hzero : digitsValue ['0'] = 0 := by decide
  rw [Numeral.value_of_whole, hzero, Nat.cast_zero]

/-- The text of zero writes whatever is rounded to zero. -/
theorem writes_zero {v : ℚ} {places : ℕ} (h : IsRounding v places 0) : Writes "0" v places := by
  refine ⟨by decide, false, ⟨['0'], none, none⟩, .of_whole isDigit_of_mem_zero nofun, rfl, ?_⟩
  rw [value_zero]
  exact h

/-- The text of a plain numeral writes what is rounded to its number. -/
theorem writes_signed {n : Numeral} (hn : n.IsPlain) {v : ℚ} {places : ℕ} {negative : Bool}
    (h : IsRounding v places (signedNumber negative n.toDecimal.value)) :
    Writes (tidied (signed negative n.chars)) v places := by
  unfold tidied
  split
  · next hcase =>
    rcases hcase with hnil | hzero
    · cases negative with
      | true => cases hnil
      | false =>
        have hchars : n.chars = [] := hnil
        rw [hn.chars_eq] at hchars
        exact absurd (List.append_eq_nil_iff.1 hchars).1 hn.whole_ne
    · have hzero : signed negative n.chars = signed true ['0'] := hzero
      obtain ⟨rfl, hchars⟩ := signed_inj hn.head_chars (by decide) hzero
      obtain rfl := hn.eq_of_chars isDigit_of_mem_zero hchars
      rw [value_zero, signedNumber, if_pos rfl, neg_zero] at h
      exact writes_zero h
  · next hcase =>
    refine ⟨fun heq => hcase (.inr ?_), negative, n, hn, rfl, h⟩
    exact String.ofList_inj.1 heq

/-! ## Without places -/

/-- Without places the text is that of a whole number, of which zeros may be missing at the end. -/
theorem Ratio.exists_whole (r : Ratio) :
    ∃ ds : List Char, ds ≠ [] ∧ (∀ c ∈ ds, c.isDigit = true) ∧
      IsRounding (r.num / r.den) 0 (digitsValue ds) ∧
      r.text 0 = tidied (signed r.negative (dropZeros ds)) := by
  obtain ⟨whole, fraction, hne, hdigits, hlength, hvalue, hchars⟩ :=
    exists_fixedChars 0 r.num r.den
  obtain rfl := List.length_eq_zero_iff.1 hlength
  rw [List.append_nil] at hdigits hvalue
  have hrounding := isRounding_roundHalfEven r.num r.den_pos 0
  rw [← hvalue, pow_zero, div_one] at hrounding
  refine ⟨whole, hne, hdigits, hrounding, ?_⟩
  rw [text, (usefulPlaces_eq_zero_iff 0 r.den).2 rfl, hchars, if_pos rfl, dropZeros_signed,
    dropPoints_eq_self (getLast?_signed_ne (isDigit_of_mem_dropZeros hdigits))]

theorem losesDigits_iff {negative : Bool} {v : ℚ} {n : ℕ} (h : IsRounding v 0 n) :
    LosesDigits negative v ↔ n % 10 = 0 ∧ (n = 0 → negative = true) := by
  have hsigned := h.signed negative
  constructor
  · rintro ⟨k, hk, hten, hzero⟩
    have heq := hk.unique hsigned
    have hcases : k = n ∨ k = -n := by
      rcases signedNumber_eq negative n with hcase | hcase <;> rw [hcase] at heq
      · exact .inl (by exact_mod_cast heq)
      · exact .inr (by exact_mod_cast heq)
    exact ⟨by omega, fun hn => hzero (by omega)⟩
  · rintro ⟨hten, hzero⟩
    rcases signedNumber_eq negative n with hcase | hcase <;> rw [hcase] at hsigned
    · exact ⟨n, by exact_mod_cast hsigned, by omega, fun hn => hzero (by omega)⟩
    · exact ⟨-n, by exact_mod_cast hsigned, by omega, fun hn => hzero (by omega)⟩

section Whole

variable {ds : List Char} {negative : Bool} {v : ℚ}

/-- What is left of some digits does not end in a zero, so it is nothing or no multiple of ten. -/
theorem dropZeros_cases (hdigits : ∀ c ∈ ds, c.isDigit = true) :
    dropZeros ds = [] ∧ digitsValue ds = 0 ∨
      dropZeros ds ≠ [] ∧ (∀ c ∈ dropZeros ds, c.isDigit = true) ∧
        digitsValue (dropZeros ds) % 10 ≠ 0 := by
  obtain ⟨k, hk, hlast⟩ := exists_dropZeros ds
  have hleft := isDigit_of_mem_dropZeros hdigits
  by_cases hne : dropZeros ds = []
  · have hzero : digitsValue ds = 0 := by
      rw [hk, hne, Text.digitsValue_append_zeros]
      exact Nat.zero_mul _
    exact .inl ⟨hne, hzero⟩
  · exact .inr ⟨hne, hleft, fun hmod => hlast ((Text.digitsValue_mod_ten hleft hne).1 hmod)⟩

/-- A number that is no multiple of ten is written with all its digits. -/
theorem writes_of_mod_ten_ne (hne : ds ≠ []) (hdigits : ∀ c ∈ ds, c.isDigit = true)
    (h : IsRounding v 0 (digitsValue ds)) (hten : digitsValue ds % 10 ≠ 0) :
    Writes (tidied (signed negative (dropZeros ds))) (signedNumber negative v) 0 := by
  rw [dropZeros_eq_self fun hlast => hten ((Text.digitsValue_mod_ten hdigits hne).2 hlast)]
  have hplain : (⟨ds, none, none⟩ : Numeral).IsPlain := .of_whole hdigits hne
  have hchars : (⟨ds, none, none⟩ : Numeral).chars = ds := by simp [Numeral.chars]
  rw [← Numeral.value_of_whole] at h
  rw [← hchars]
  exact writes_signed hplain (h.signed negative)

/-- Of zero nothing is left, and it is written all the same unless it has a minus sign. -/
theorem writes_of_eq_zero (hdigits : ∀ c ∈ ds, c.isDigit = true)
    (h : IsRounding v 0 (digitsValue ds)) (hzero : digitsValue ds = 0) :
    Writes (tidied (signed false (dropZeros ds))) (signedNumber false v) 0 := by
  rw [hzero, Nat.cast_zero] at h
  rcases dropZeros_cases hdigits with ⟨hnil, _⟩ | ⟨hne, hleft, hten⟩
  · rw [hnil]
    exact writes_zero h
  · obtain ⟨k, hk, _⟩ := exists_dropZeros ds
    rw [hk, Text.digitsValue_append_zeros] at hzero
    have hpos : digitsValue (dropZeros ds) * 10 ^ k ≠ 0 :=
      mul_ne_zero (fun hleft_zero => hten (by rw [hleft_zero, Nat.zero_mod])) (by positivity)
    exact absurd hzero hpos

/-- What is left of a number that loses digits does not write it. -/
theorem not_writes_of_losesDigits (hdigits : ∀ c ∈ ds, c.isDigit = true)
    (h : IsRounding v 0 (digitsValue ds)) (hloses : LosesDigits negative v) :
    ¬Writes (tidied (signed negative (dropZeros ds))) (signedNumber negative v) 0 := by
  rintro ⟨_, negative', n, hn, htext, hreads⟩
  obtain ⟨hten, hnegative⟩ := (losesDigits_iff h).1 hloses
  have hsigned := h.signed negative
  rcases dropZeros_cases hdigits with ⟨hnil, hzero⟩ | ⟨hne, hleft, hleft_ten⟩
  · -- only the minus sign is left, and a numeral has a digit
    obtain rfl := hnegative hzero
    rw [hnil] at htext
    have hchars : signed true [] = signed negative' n.chars := String.ofList_inj.1 htext
    obtain ⟨_, hempty⟩ := signed_inj (by decide) hn.head_chars hchars
    rw [hn.chars_eq] at hempty
    exact absurd (List.append_eq_nil_iff.1 hempty.symm).1 hn.whole_ne
  · have hhead : (dropZeros ds).head? ≠ some '-' := fun hhead =>
      not_mem_of_digits hleft rfl (List.mem_of_head? hhead)
    have htidied : tidied (signed negative (dropZeros ds)) =
        String.ofList (signed negative (dropZeros ds)) := by
      refine if_neg ?_
      rintro (hnil | hzero)
      · cases negative with
        | false => exact hne hnil
        | true => cases hnil
      · have hzero : signed negative (dropZeros ds) = signed true ['0'] := hzero
        obtain ⟨_, heq⟩ := signed_inj hhead (by decide) hzero
        rw [heq] at hleft_ten
        exact hleft_ten rfl
    rw [htidied] at htext
    obtain ⟨rfl, hchars⟩ := signed_inj hhead hn.head_chars (String.ofList_inj.1 htext)
    obtain rfl := hn.eq_of_chars hleft hchars.symm
    -- the number that is read is no multiple of ten, so it is not the one that is rounded to
    have hvalue := hreads.unique hsigned
    rw [Numeral.value_of_whole] at hvalue
    have hinj : digitsValue (dropZeros ds) = digitsValue ds := by
      exact_mod_cast signedNumber_inj hvalue
    exact hleft_ten (hinj ▸ hten)

end Whole

/-- Without places the text of a number is right if and only if it does not lose digits. -/
theorem Ratio.writes_zero_places_iff (r : Ratio) :
    Writes (r.text 0) (signedNumber r.negative (r.num / r.den)) 0 ↔
      ¬LosesDigits r.negative (r.num / r.den) := by
  obtain ⟨ds, hne, hdigits, hrounding, htext⟩ := r.exists_whole
  rw [htext]
  constructor
  · exact fun hwrites hloses => not_writes_of_losesDigits hdigits hrounding hloses hwrites
  · intro hkeeps
    by_cases hten : digitsValue ds % 10 = 0
    · rw [losesDigits_iff hrounding, and_iff_right hten] at hkeeps
      push Not at hkeeps
      obtain ⟨hzero, hnegative⟩ := hkeeps
      rw [Bool.eq_false_iff.2 hnegative]
      exact writes_of_eq_zero hdigits hrounding hzero
    · exact writes_of_mod_ten_ne hne hdigits hrounding hten

/-- With places the text of a number is right. -/
theorem Ratio.writes_of_places_ne (r : Ratio) {places : ℕ} (h : places ≠ 0) :
    Writes (r.text places) (signedNumber r.negative (r.num / r.den)) places := by
  obtain ⟨n, hn, hvalue, hchars⟩ :=
    exists_trimmed r.negative (mt (usefulPlaces_eq_zero_iff places r.den).1 h) r.num r.den
  rw [text, hchars]
  refine writes_signed hn ?_
  rw [hvalue]
  exact (isRounding_usefulPlaces r.den_pos places).signed r.negative

/-! ## All numbers -/

theorem placesOf_of_lt {places : ℕ} (h : places < 2 ^ 31) : placesOf places = .ok places := by
  have hless : ¬Nat.pow 2 31 ≤ (places : ℤ).toNat := by
    rw [Int.toNat_natCast]
    exact not_le.2 h
  have hless' : ¬Nat.pow 2 63 ≤ (places : ℤ).toNat := by
    rw [Int.toNat_natCast]
    exact not_le.2 (h.trans (by norm_num))
  rw [placesOf, if_neg (by omega), if_neg hless', if_neg hless, Int.toNat_natCast]

theorem exists_placesOf_of_le {places : ℕ} (h : 2 ^ 31 ≤ places) :
    ∃ fault, placesOf places = .error fault := by
  have hmore : Nat.pow 2 31 ≤ (places : ℤ).toNat := by
    rw [Int.toNat_natCast]
    exact h
  unfold placesOf
  rw [if_neg (by omega), if_pos hmore]
  split
  · exact ⟨_, rfl⟩
  · exact ⟨_, rfl⟩

theorem drawnNumber_of_ratio? {x : Float} {r : Ratio} (h : Scalar.ratio? x = some r) {places : ℕ}
    (hplaces : places < 2 ^ 31) : drawnNumber x places = .ok (r.text places) := by
  rw [drawnNumber, h, placesOf_of_lt hplaces]
  rfl

/-- A finite double as a fraction with a sign. -/
theorem exists_ratio? {x : Float} {negative : Bool} {m : ℕ} {q : ℤ}
    (h : Double.ofFloat x = .finite negative m q) :
    ∃ r : Ratio, Scalar.ratio? x = some r ∧ r.negative = negative ∧
      (r.num / r.den : ℚ) = m * 2 ^ q := by
  have hratio : Scalar.ratio? x = (Double.ofFloat x).ratio? := rfl
  rw [hratio, h]
  refine ⟨_, rfl, rfl, ?_⟩
  show ((m * 2 ^ q.toNat : ℕ) : ℚ) / ((2 ^ (-q).toNat : ℕ) : ℚ) = m * 2 ^ q
  rw [zpow_eq_toNat_div 2 q, ← mul_div_assoc]
  push_cast
  rfl

/-- The run that writes a number has the same result at every level. -/
theorem drawNumber_yields_iff {x : Float} {places : ℕ} {s : String} :
    (drawNumber x places).Yields s ↔ drawnNumber x places = .ok s := by
  have hresult : (drawNumber x places).result = drawnNumber x places := by
    rw [drawNumber, Traced.result_call, Traced.result_ofExcept]
  have hsteady := ((DrawingDiscipline.steady Float places).run_drawNumber x).steady
  rw [← hresult]
  exact ⟨fun hyields => hyields .warning, hsteady.yields⟩

/-- The number that a picture writes of a finite double with a number of places is a plain numeral of
the double rounded to these places, a half going to the even neighbour; except that without places
it is not if the double loses digits, and that nothing is written with more places than there can
be. -/
theorem drawNumber_writes_iff (x : Float) (negative : Bool) (m : ℕ) (q : ℤ)
    (h : Double.ofFloat x = .finite negative m q) (places : ℕ) :
    (∃ s, (drawNumber x places).Yields s ∧ Writes s (signedNumber negative (m * 2 ^ q)) places) ↔
      places < 2 ^ 31 ∧ ¬(places = 0 ∧ LosesDigits negative (m * 2 ^ q)) := by
  obtain ⟨r, hratio, rfl, hvalue⟩ := exists_ratio? h
  simp only [drawNumber_yields_iff, ← hvalue]
  rcases Nat.lt_or_ge places (2 ^ 31) with hfew | hmany
  · have htext : (∃ s, drawnNumber x places = .ok s ∧
        Writes s (signedNumber r.negative (r.num / r.den)) places) ↔
        Writes (r.text places) (signedNumber r.negative (r.num / r.den)) places := by
      rw [drawnNumber_of_ratio? hratio hfew]
      exact ⟨fun ⟨s, hs, hwrites⟩ => Except.ok.inj hs ▸ hwrites, fun hwrites => ⟨_, rfl, hwrites⟩⟩
    rw [htext, and_iff_right hfew]
    by_cases hplaces : places = 0
    · subst hplaces
      rw [r.writes_zero_places_iff, and_iff_right rfl]
    · exact iff_of_true (r.writes_of_places_ne hplaces) fun hzero => hplaces hzero.1
  · obtain ⟨fault, hfault⟩ := exists_placesOf_of_le hmany
    have hfails : drawnNumber x places = .error fault := by
      rw [drawnNumber, hratio, hfault]
      rfl
    rw [hfails]
    exact iff_of_false (fun ⟨s, hs, _⟩ => nomatch hs) fun hless => absurd hless.1 (not_lt.2 hmany)

theorem ofFloat_ten : Double.ofFloat 10 = .finite false (10 * 2 ^ 49) (-49) := by decide +kernel

theorem losesDigits_ten : LosesDigits false 10 :=
  ⟨10, isRounding_self 10 (by norm_num [signedNumber]), by norm_num, by norm_num⟩

/-- Ten is written with one place, but not without places. -/
theorem drawNumber_writes_iff_ten :
    Double.ofFloat 10 = .finite false (10 * 2 ^ 49) (-49) ∧
      (∃ s, (drawNumber (10 : Float) 1).Yields s ∧ Writes s 10 1) ∧
      ¬∃ s, (drawNumber (10 : Float) 0).Yields s ∧ Writes s 10 0 := by
  have hvalue : (((10 * 2 ^ 49 : ℕ) : ℚ) * 2 ^ (-49 : ℤ)) = 10 := by norm_num
  have hone := drawNumber_writes_iff 10 _ _ _ ofFloat_ten 1
  have hnone := drawNumber_writes_iff 10 _ _ _ ofFloat_ten 0
  rw [hvalue] at hone hnone
  exact ⟨ofFloat_ten, hone.2 ⟨by norm_num, by norm_num⟩,
    fun hwrites => (hnone.1 hwrites).2 ⟨rfl, losesDigits_ten⟩⟩

/-- Without places ten becomes one, and of a negative number that is rounded to zero only the minus
sign is left. -/
theorem drawNumber_ten :
    (drawNumber (10 : Float) 0).Yields "1" ∧ ¬Writes "1" 10 0 ∧
      (drawNumber (-0.4 : Float) 0).Yields "-" := by
  refine ⟨drawNumber_yields_iff.2 (by decide +kernel), ?_,
    drawNumber_yields_iff.2 (by decide +kernel)⟩
  have hiff := Ratio.writes_zero_places_iff ⟨false, 10, 1, one_pos⟩
  have htext : Ratio.text ⟨false, 10, 1, one_pos⟩ 0 = "1" := by decide +kernel
  have hvalue : ((10 : ℕ) / (1 : ℕ) : ℚ) = 10 := by norm_num
  rw [htext] at hiff
  dsimp only at hiff
  rw [hvalue] at hiff
  exact fun hwrites => hiff.1 hwrites losesDigits_ten

end Planar
