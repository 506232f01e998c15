import Mathlib.Tactic
import Planar.Decimal.Layout
import Planar.Proofs.Number.Nearest

/-!
# Numerals and number text

A numeral is scanned off the front of a text as it was written, provided that what follows cannot
go on with it. The text of a finite double is such a numeral, after a minus sign where the double
is negative, and reading the numeral gives the double back:

* `Numeral.IsProper` — the shape of a numeral: digits, a point with a digit beside it, an exponent;
* `Numeral.scan_chars_append` — a proper numeral is scanned as a whole;
* `exists_numeral_write` — number text is a proper numeral of the same value;
* `exists_numeral_of_ofFloat` — the text of a finite double reads back.
-/

namespace Planar

open Text (isDigit digitValue? digitsValue digitZeros)

/-! ## Digits -/

namespace Text

/-- Apart from the ASCII digits, all decimal digits lie beyond the Latin scripts. -/
theorem isDigit_of_lt {c : Char} (h : c.toNat < 0x660) :
    isDigit c = (decide (48 ≤ c.toNat) && decide (c.toNat < 58)) := by
  have hzeros : ∀ z ∈ digitZeros, z = 48 ∨ 0x660 ≤ z := by decide
  rw [Bool.eq_iff_iff]
  simp only [isDigit, digitValue?, Option.isSome_map, List.find?_isSome, Bool.and_eq_true,
    decide_eq_true_eq]
  constructor
  · rintro ⟨z, hz, hle, hlt⟩
    rcases hzeros z hz with rfl | hfar
    · omega
    · omega
  · rintro ⟨hle, hlt⟩
    exact ⟨48, by decide, hle, by omega⟩

theorem digitValue?_of_isDigit {c : Char} (h : c.isDigit = true) :
    digitValue? c = some (c.toNat - 48) := by
  have hrange : 48 ≤ c.toNat ∧ c.toNat ≤ 57 := Char.isDigit_iff_toNat.1 h
  have hfirst : digitZeros = 48 :: digitZeros.tail := rfl
  rw [digitValue?, hfirst, List.find?_cons_of_pos]
  · rfl
  · simp only [Bool.and_eq_true, decide_eq_true_eq]
    omega

theorem isDigit_of_mem_toDigits {n : ℕ} {c : Char} (h : c ∈ Nat.toDigits 10 n) :
    isDigit c = true := by
  rw [isDigit, digitValue?_of_isDigit (Nat.isDigit_of_mem_toDigits (by norm_num) le_rfl h)]
  rfl

theorem digitsValue_append (a b : List Char) :
    digitsValue (a ++ b) = digitsValue a * 10 ^ b.length + digitsValue b := by
  induction b using List.reverseRecOn with
  | nil => simp [digitsValue]
  | append_singleton b c ih =>
    rw [← List.append_assoc]
    simp only [digitsValue, List.foldl_append, List.foldl_cons, List.foldl_nil,
      List.length_append, List.length_singleton] at ih ⊢
    rw [ih, pow_succ]
    ring

/-- Zeros in front of some digits do not count. -/
theorem digitsValue_zeros_append (n : ℕ) (ds : List Char) :
    digitsValue (List.replicate n '0' ++ ds) = digitsValue ds := by
  induction n with
  | zero => rfl
  | succ n ih =>
    rw [List.replicate_succ, List.cons_append]
    exact ih

/-- Each zero after some digits is a factor of ten. -/
theorem digitsValue_append_zeros (n : ℕ) (ds : List Char) :
    digitsValue (ds ++ List.replicate n '0') = digitsValue ds * 10 ^ n := by
  have hzeros := digitsValue_zeros_append n []
  rw [List.append_nil] at hzeros
  rw [digitsValue_append, hzeros, List.length_replicate]
  rfl

/-- The digits of a number write the number. -/
@[simp]
theorem digitsValue_toDigits (n : ℕ) : digitsValue (Nat.toDigits 10 n) = n := by
  have hfold : ∀ (cs : List Char) (init : ℕ), (∀ c ∈ cs, c.isDigit = true) →
      cs.foldl (fun n c => 10 * n + (digitValue? c).getD 0) init =
        Nat.ofDigitChars 10 cs init := by
    intro cs
    induction cs with
    | nil => intro init _; rfl
    | cons c cs ih =>
      intro init hcs
      rw [List.foldl_cons, Nat.ofDigitChars_cons,
        ih _ (fun d hd => hcs d (List.mem_cons_of_mem _ hd)),
        digitValue?_of_isDigit (hcs c List.mem_cons_self)]
      rfl
  rw [digitsValue, hfold _ _ fun c hc => Nat.isDigit_of_mem_toDigits (by norm_num) le_rfl hc]
  exact Nat.ofDigitChars_ten_toDigits

end Text

/-! ## Scanning numerals -/

/-- A run of characters of one sort ends where another sort begins. -/
theorem span_append {p : Char → Bool} {run rest : List Char} (hrun : ∀ c ∈ run, p c = true)
    (hrest : ∀ c ∈ rest.head?, p c = false) :
    (run ++ rest).takeWhile p = run ∧ (run ++ rest).dropWhile p = rest := by
  have hstop : rest.takeWhile p = [] ∧ rest.dropWhile p = rest := by
    cases rest with
    | nil => exact ⟨rfl, rfl⟩
    | cons c cs => simp [hrest c rfl]
  rw [List.takeWhile_append_of_pos hrun, List.dropWhile_append_of_pos hrun, hstop.1, hstop.2,
    List.append_nil]
  exact ⟨rfl, rfl⟩

namespace Numeral

/-- The shape of an exponent: a mark, a sign or none, and at least one digit. -/
structure Exponent.IsProper (e : Exponent) : Prop where
  mark : e.mark = 'e' ∨ e.mark = 'E'
  sign : ∀ c ∈ e.sign, c = '+' ∨ c = '-'
  digits : ∀ c ∈ e.digits, isDigit c = true
  nonempty : e.digits ≠ []

/-- The shape of a numeral: digits, with at least one on one side of the point, and an exponent or
none. -/
structure IsProper (n : Numeral) : Prop where
  whole : ∀ c ∈ n.whole, isDigit c = true
  fraction : ∀ c ∈ n.fraction.getD [], isDigit c = true
  nonempty : n.whole ≠ [] ∨ n.fraction.getD [] ≠ []
  exponent : ∀ e ∈ n.exponent, e.IsProper

/-- Whether a text cannot go on with a numeral that ends before it. -/
def Ends (rest : List Char) : Prop :=
  ∀ c ∈ rest.head?, isDigit c = false ∧ c ≠ '.' ∧ c ≠ 'e' ∧ c ≠ 'E'

theorem scanExponentDigits_append {mark : Char} {sign : Option Char} {digits rest : List Char}
    (hdigits : ∀ c ∈ digits, isDigit c = true) (hne : digits ≠ []) (hrest : Ends rest) :
    scanExponentDigits mark sign (digits ++ rest) = some (⟨mark, sign, digits⟩, rest) := by
  obtain ⟨htake, hdrop⟩ := span_append hdigits fun c hc => (hrest c hc).1
  unfold scanExponentDigits
  rw [htake, hdrop, if_neg (by simpa using hne)]

theorem scanExponent_chars_append {e : Exponent} (he : e.IsProper) {rest : List Char}
    (hrest : Ends rest) : scanExponent (e.chars ++ rest) = some (e, rest) := by
  obtain ⟨mark, sign, digits⟩ := e
  obtain ⟨hmark, hsign, hdigits, hne⟩ := he
  dsimp only at hmark hsign hdigits hne
  cases sign with
  | some s =>
    show scanExponent (mark :: s :: (digits ++ rest)) = _
    simp only [scanExponent]
    rw [if_pos hmark, if_pos (hsign s rfl)]
    exact scanExponentDigits_append hdigits hne hrest
  | none =>
    obtain ⟨d, ds, rfl⟩ := List.exists_cons_of_ne_nil hne
    have hd : ¬(d = '+' ∨ d = '-') := by
      rintro (rfl | rfl)
      · exact absurd (hdigits '+' List.mem_cons_self) (by decide)
      · exact absurd (hdigits '-' List.mem_cons_self) (by decide)
    show scanExponent (mark :: d :: (ds ++ rest)) = _
    simp only [scanExponent]
    rw [if_pos hmark, if_neg hd]
    exact scanExponentDigits_append hdigits hne hrest

theorem scanExponent_eq_none {rest : List Char} (hrest : Ends rest) : scanExponent rest = none := by
  cases rest with
  | nil => rfl
  | cons c cs =>
    obtain ⟨_, _, he, hE⟩ := hrest c rfl
    simp [scanExponent, he, hE]

/-- The text of an exponent or of none, as far as it matters to what stands before it. -/
theorem head_exponent_append {exponent : Option Exponent} (he : ∀ e ∈ exponent, e.IsProper)
    {rest : List Char} (hrest : Ends rest) :
    ∀ c ∈ (exponent.elim [] Exponent.chars ++ rest).head?, isDigit c = false ∧ c ≠ '.' := by
  intro c hc
  cases exponent with
  | none => exact ⟨(hrest c hc).1, (hrest c hc).2.1⟩
  | some e =>
    obtain rfl : e.mark = c := Option.some.inj hc
    rcases (he e rfl).mark with hmark | hmark <;> rw [hmark] <;> exact ⟨by decide, by decide⟩

theorem finish_append {whole : List Char} {fraction : Option (List Char)}
    {exponent : Option Exponent} (he : ∀ e ∈ exponent, e.IsProper) {rest : List Char}
    (hrest : Ends rest) :
    finish whole fraction (exponent.elim [] Exponent.chars ++ rest) =
      (⟨whole, fraction, exponent⟩, rest) := by
  unfold finish
  cases exponent with
  | none =>
    rw [Option.elim_none, List.nil_append, scanExponent_eq_none hrest]
  | some e =>
    rw [Option.elim_some, scanExponent_chars_append (he e rfl) hrest]

/-- A proper numeral is scanned as a whole, whatever comes after it that cannot go on with it. -/
theorem scan_chars_append {n : Numeral} (hn : n.IsProper) {rest : List Char} (hrest : Ends rest) :
    scan (n.chars ++ rest) = some (n, rest) := by
  obtain ⟨whole, fraction, exponent⟩ := n
  obtain ⟨hwhole, hfraction, hne, hexponent⟩ := hn
  dsimp only at hwhole hfraction hne hexponent
  have htail := head_exponent_append hexponent hrest
  have hfinish : ∀ fraction, finish whole fraction (exponent.elim [] Exponent.chars ++ rest) =
      (⟨whole, fraction, exponent⟩, rest) := fun _ => finish_append hexponent hrest
  generalize htaildef : exponent.elim [] Exponent.chars ++ rest = tail at htail hfinish
  cases fraction with
  | some f =>
    have hchars : (⟨whole, some f, exponent⟩ : Numeral).chars ++ rest =
        whole ++ '.' :: (f ++ tail) := by
      simp [chars, ← htaildef]
    have hpoint : ∀ c ∈ ('.' :: (f ++ tail)).head?, isDigit c = false := by
      intro c hc
      obtain rfl : '.' = c := Option.some.inj hc
      decide
    obtain ⟨htake, hdrop⟩ := span_append hwhole hpoint
    obtain ⟨htake', hdrop'⟩ := span_append hfraction fun c hc => (htail c hc).1
    rw [Option.getD_some] at htake' hdrop' hne
    unfold scan
    simp only [hchars, htake, hdrop, htake', hdrop']
    rw [if_neg (by simpa [or_iff_not_imp_left] using hne), hfinish]
  | none =>
    have hchars : (⟨whole, none, exponent⟩ : Numeral).chars ++ rest = whole ++ tail := by
      simp [chars, ← htaildef]
    obtain ⟨htake, hdrop⟩ := span_append hwhole fun c hc => (htail c hc).1
    have hwhole' : whole ≠ [] := by simpa using hne
    unfold scan
    simp only [hchars, htake, hdrop]
    split
    · exact absurd rfl (htail '.' rfl).2
    · rw [if_neg (by simpa using hwhole'), hfinish]

/-- A proper numeral is what its whole text writes. -/
theorem ofChars?_chars {n : Numeral} (hn : n.IsProper) : ofChars? n.chars = some n := by
  have hends : Ends [] := by simp [Ends]
  have h := scan_chars_append hn hends
  rw [List.append_nil] at h
  rw [ofChars?, h]

end Numeral

/-! ## Number text -/

namespace Layout

theorem isDigit_of_mem_zeros {k : ℕ} {c : Char} (hc : c ∈ List.replicate k '0') :
    isDigit c = true := by
  rw [List.eq_of_mem_replicate hc]
  decide

/-- Digits with a point where it falls are a proper numeral of the same value. -/
theorem exists_numeral_positional {ds : List Char} (hds : ∀ c ∈ ds, isDigit c = true)
    (hne : ds ≠ []) (e : ℤ) :
    ∃ n : Numeral, n.IsProper ∧ n.chars = positional [] ds e ∧
      n.toDecimal.value = digitsValue ds * 10 ^ (e - (ds.length - 1)) := by
  unfold positional
  split
  · next hneg =>
    -- The point stands before the first digit.
    refine ⟨⟨['0'], some (List.replicate (-e - 1).toNat '0' ++ ds), none⟩, ⟨?_, ?_, ?_, ?_⟩, ?_, ?_⟩
    · simpa using by decide
    · intro c hc
      rcases List.mem_append.1 hc with hc | hc
      · exact isDigit_of_mem_zeros hc
      · exact hds c hc
    · exact .inl (by simp)
    · simp
    · simp [Numeral.chars]
    · show (digitsValue (List.replicate ((-e - 1).toNat + 1) '0' ++ ds) : ℚ) *
        10 ^ (0 - ((List.replicate (-e - 1).toNat '0' ++ ds).length : ℤ)) = _
      rw [Text.digitsValue_zeros_append, List.length_append, List.length_replicate]
      congr 2
      omega
  · next hnonneg =>
    dsimp only
    split
    · next hshort =>
      -- The point would stand after the last digit and is left out.
      refine ⟨⟨ds ++ List.replicate (e.toNat + 1 - ds.length) '0', none, none⟩, ⟨?_, ?_, ?_, ?_⟩,
        ?_, ?_⟩
      · intro c hc
        rcases List.mem_append.1 hc with hc | hc
        · exact hds c hc
        · exact isDigit_of_mem_zeros hc
      · simp
      · exact .inl (by simp [hne])
      · simp
      · simp [Numeral.chars]
      · show (digitsValue (ds ++ List.replicate (e.toNat + 1 - ds.length) '0' ++ []) : ℚ) *
          10 ^ (0 - (([] : List Char).length : ℤ)) = _
        rw [List.append_nil, Text.digitsValue_append_zeros]
        have hexp : e - (ds.length - 1) = ((e.toNat + 1 - ds.length : ℕ) : ℤ) := by omega
        rw [hexp, zpow_natCast]
        simp
    · next hlong =>
      refine ⟨⟨ds.take (e.toNat + 1), some (ds.drop (e.toNat + 1)), none⟩, ⟨?_, ?_, ?_, ?_⟩, ?_, ?_⟩
      · exact fun c hc => hds c (List.mem_of_mem_take hc)
      · exact fun c hc => hds c (List.mem_of_mem_drop hc)
      · exact .inl (by simp [hne])
      · simp
      · simp [Numeral.chars]
      · show (digitsValue (ds.take (e.toNat + 1) ++ ds.drop (e.toNat + 1)) : ℚ) *
          10 ^ (0 - ((ds.drop (e.toNat + 1)).length : ℤ)) = _
        rw [List.take_append_drop, List.length_drop]
        congr 2
        omega

/-- The sign and digits of an exponent, and what they write. -/
theorem exists_exponent (least : ℕ) (e : ℤ) :
    ∃ x : Numeral.Exponent, x.IsProper ∧ x.chars = 'e' :: exponent least e ∧ x.value = e := by
  set ds := Nat.toDigits 10 e.natAbs with hds
  refine ⟨⟨'e', some (if e < 0 then '-' else '+'), List.replicate (least - ds.length) '0' ++ ds⟩,
    ⟨.inl rfl, ?_, ?_, ?_⟩, ?_, ?_⟩
  · intro c hc
    obtain rfl := Option.some.inj hc
    split <;> simp
  · intro c hc
    rcases List.mem_append.1 hc with hc | hc
    · exact isDigit_of_mem_zeros hc
    · exact Text.isDigit_of_mem_toDigits hc
  · simp [hds, Nat.toDigits_ne_nil]
  · simp [Numeral.Exponent.chars, exponent, hds]
  · unfold Numeral.Exponent.value
    dsimp only
    rw [Text.digitsValue_zeros_append, hds, Text.digitsValue_toDigits]
    by_cases hneg : e < 0
    · rw [if_pos hneg, if_pos rfl]
      omega
    · rw [if_neg hneg, if_neg (by decide)]
      omega

/-- Digits with an exponent are a proper numeral of the same value. -/
theorem exists_numeral_scientific {ds : List Char} (hds : ∀ c ∈ ds, isDigit c = true)
    (hne : ds ≠ []) (e : ℤ) :
    ∃ n : Numeral, n.IsProper ∧ n.chars = scientific ds e ∧
      n.toDecimal.value = digitsValue ds * 10 ^ (e - (ds.length - 1)) := by
  obtain ⟨x, hx, hchars, hvalue⟩ := exists_exponent exponentDigits e
  have hexponent : ∀ y ∈ some x, y.IsProper := by
    intro y hy
    rwa [← Option.some.inj hy]
  match ds, hne with
  | [d], _ =>
    refine ⟨⟨[d], none, some x⟩, ⟨hds, by simp, .inl (by simp), hexponent⟩, ?_, ?_⟩
    · simp [Numeral.chars, scientific, hchars]
    · show (digitsValue ([d] ++ []) : ℚ) * 10 ^ (x.value - (([] : List Char).length : ℤ)) = _
      rw [List.append_nil, hvalue]
      simp
  | d :: d' :: more, _ =>
    refine ⟨⟨[d], some (d' :: more), some x⟩, ⟨?_, ?_, .inl (by simp), hexponent⟩, ?_, ?_⟩
    · exact fun c hc => hds c (by simp_all)
    · exact fun c hc => hds c (List.mem_cons_of_mem _ hc)
    · simp [Numeral.chars, scientific, hchars]
    · show (digitsValue ([d] ++ d' :: more) : ℚ) * 10 ^ (x.value - ((d' :: more).length : ℤ)) = _
      rw [hvalue]
      simp

/-- Number text in which a whole number has no mark is a proper numeral of the same value. -/
theorem exists_numeral_write (layout : Layout) (hwhole : layout.whole = []) (d : Decimal) :
    ∃ n : Numeral, n.IsProper ∧ n.chars = layout.write d ∧ n.toDecimal.value = d.value := by
  have hds : ∀ c ∈ Nat.toDigits 10 d.coefficient, isDigit c = true :=
    fun _ => Text.isDigit_of_mem_toDigits
  set e : ℤ := d.exponent + ((Nat.toDigits 10 d.coefficient).length - 1) with he
  have hvalue : (digitsValue (Nat.toDigits 10 d.coefficient) : ℚ) *
      10 ^ (e - ((Nat.toDigits 10 d.coefficient).length - 1)) = d.value := by
    rw [Text.digitsValue_toDigits, he, add_sub_cancel_right]
    rfl
  unfold write
  dsimp only
  rw [← he, hwhole]
  split
  · obtain ⟨n, hn, hchars, hn'⟩ := exists_numeral_positional hds Nat.toDigits_ne_nil e
    exact ⟨n, hn, hchars, hn'.trans hvalue⟩
  · obtain ⟨n, hn, hchars, hn'⟩ := exists_numeral_scientific hds Nat.toDigits_ne_nil e
    exact ⟨n, hn, hchars, hn'.trans hvalue⟩

end Layout

/-- The text of a finite double is a proper numeral, after a minus sign if the double is negative
and no zero, and the numeral is read as the double without its sign. -/
theorem exists_numeral_of_ofFloat {x : Float} {negative : Bool} {m : ℕ} {q : ℤ}
    (h : Double.ofFloat x = .finite negative m q) :
    ∃ n : Numeral, n.IsProper ∧
      numberText? x = some (String.ofList (signed (negative && m != 0) n.chars)) ∧
      Double.ofFloat n.toFloat = .finite false m q := by
  have hfits := Double.fits_of_ofFloat h
  unfold numberText?
  rw [h]
  by_cases hm : m = 0
  · subst hm
    obtain rfl := hfits.exponent_eq_of_zero
    refine ⟨⟨['0'], none, none⟩, ⟨?_, ?_, .inl (by simp), ?_⟩, ?_, ?_⟩
    · simpa using by decide
    · simp
    · simp
    · simp [Double.sourceChars?, Numeral.chars, signed]
    · exact Double.ofFloat_toFloat hfits
  · have hpos : 0 < m := Nat.pos_of_ne_zero hm
    have hne : (m != 0) = true := by simpa using hm
    obtain ⟨n, hn, hchars, hvalue⟩ := Layout.exists_numeral_write
      { Layout.shortest with whole := [] } rfl (Decimal.shortest m q)
    refine ⟨n, hn, ?_, ?_⟩
    · simp [Double.sourceChars?, hm, hne, hchars]
    · have hnearby := Decimal.nearby_shortest q hpos
      rw [← hvalue] at hnearby
      rw [Numeral.toFloat, Double.ofDecimal_eq hfits hpos hnearby]
      exact Double.ofFloat_toFloat hfits

end Planar
