import Planar.Decimal.Shortest
import Planar.Text.Blank
import Planar.Text.Digit

/-!
# Numerals

A numeral is a row of digits with an optional point and an optional exponent. `Numeral.scan` takes
the longest numeral off the front of a text, and `Numeral.toDecimal` is the number that it writes.
`readFloat?` reads a whole text as a double, signs, infinities and blanks at the ends included.
-/

namespace Planar

open Text (isDigit digitsValue)

/-- The exponent of a numeral: its mark, its sign if one is written, and its digits. -/
structure Numeral.Exponent where
  mark : Char
  sign : Option Char
  digits : List Char
deriving DecidableEq

/-- A numeral as it is written; `fraction` is present when there is a point. -/
structure Numeral where
  whole : List Char
  fraction : Option (List Char)
  exponent : Option Numeral.Exponent
deriving DecidableEq

namespace Numeral

/-- The text of an exponent. -/
def Exponent.chars (e : Exponent) : List Char := e.mark :: e.sign.toList ++ e.digits

/-- The text of a numeral. -/
def chars (n : Numeral) : List Char :=
  n.whole ++ (n.fraction.elim [] ('.' :: ·) ++ n.exponent.elim [] Exponent.chars)

/-- The power of ten that an exponent writes. -/
def Exponent.value (e : Exponent) : Int :=
  if e.sign = some '-' then -digitsValue e.digits else digitsValue e.digits

/-- The number that a numeral writes. -/
def toDecimal (n : Numeral) : Decimal where
  coefficient := digitsValue (n.whole ++ n.fraction.getD [])
  exponent := n.exponent.elim 0 Exponent.value - (n.fraction.getD []).length

/-- The digits of an exponent after its mark and sign, if there are any. -/
def scanExponentDigits (mark : Char) (sign : Option Char) (cs : List Char) :
    Option (Exponent × List Char) :=
  if (cs.takeWhile isDigit).isEmpty then none
  else some (⟨mark, sign, cs.takeWhile isDigit⟩, cs.dropWhile isDigit)

/-- The exponent at the front of a text. -/
def scanExponent : List Char → Option (Exponent × List Char)
  | mark :: rest =>
    if mark = 'e' ∨ mark = 'E' then
      match rest with
      | sign :: more =>
        if sign = '+' ∨ sign = '-' then scanExponentDigits mark (some sign) more
        else scanExponentDigits mark none rest
      | [] => none
    else none
  | [] => none

/-- A numeral with the given digits, and the exponent that follows them if there is one. -/
def finish (whole : List Char) (fraction : Option (List Char)) (cs : List Char) :
    Numeral × List Char :=
  match scanExponent cs with
  | some (exponent, rest) => (⟨whole, fraction, some exponent⟩, rest)
  | none => (⟨whole, fraction, none⟩, cs)

/-- The longest numeral at the front of a text, and what follows it. A point needs a digit on one
side. -/
def scan (cs : List Char) : Option (Numeral × List Char) :=
  let whole := cs.takeWhile isDigit
  match cs.dropWhile isDigit with
  | '.' :: rest =>
    let fraction := rest.takeWhile isDigit
    if whole.isEmpty && fraction.isEmpty then none
    else some (finish whole (some fraction) (rest.dropWhile isDigit))
  | rest => if whole.isEmpty then none else some (finish whole none rest)

theorem chars_append_of_scanExponentDigits {mark : Char} {sign : Option Char}
    {cs rest : List Char} {e : Exponent} (h : scanExponentDigits mark sign cs = some (e, rest)) :
    e.chars ++ rest = mark :: sign.toList ++ cs := by
  unfold scanExponentDigits at h
  split at h
  · simp at h
  · obtain ⟨rfl, rfl⟩ := Prod.mk.inj (Option.some.inj h)
    simp [Exponent.chars]

theorem chars_append_of_scanExponent {cs rest : List Char} {e : Exponent}
    (h : scanExponent cs = some (e, rest)) : e.chars ++ rest = cs := by
  unfold scanExponent at h
  split at h
  · split at h
    · split at h
      · split at h <;> simpa using chars_append_of_scanExponentDigits h
      · simp at h
    · simp at h
  · simp at h

theorem chars_append_of_finish {whole cs rest : List Char} {fraction : Option (List Char)}
    {n : Numeral} (h : finish whole fraction cs = (n, rest)) :
    n.chars ++ rest = whole ++ (fraction.elim [] ('.' :: ·) ++ cs) := by
  unfold finish at h
  split at h
  · next e more hscan =>
    obtain ⟨rfl, rfl⟩ := Prod.mk.inj h
    simp [chars, ← chars_append_of_scanExponent hscan]
  · obtain ⟨rfl, rfl⟩ := Prod.mk.inj h
    simp [chars]

/-- Scanning loses nothing: the numeral and what follows it are the text. -/
theorem chars_append_of_scan {cs rest : List Char} {n : Numeral} (h : scan cs = some (n, rest)) :
    n.chars ++ rest = cs := by
  unfold scan at h
  dsimp only at h
  split at h
  · next more hdrop =>
    split at h
    · simp at h
    · rw [chars_append_of_finish (Option.some.inj h)]
      simp [← hdrop]
  · split at h
    · simp at h
    · rw [chars_append_of_finish (Option.some.inj h)]
      simp

theorem length_le_finish (whole cs : List Char) (fraction : Option (List Char)) :
    whole.length + (fraction.elim [] ('.' :: ·)).length
      ≤ (finish whole fraction cs).1.chars.length := by
  unfold finish
  split <;> simp only [chars, List.length_append] <;> omega

/-- A numeral that is scanned has at least one character. -/
theorem length_pos_of_scan {cs rest : List Char} {n : Numeral} (h : scan cs = some (n, rest)) :
    0 < n.chars.length := by
  unfold scan at h
  dsimp only at h
  split at h
  · next more _ =>
    split at h
    · simp at h
    · have hle := length_le_finish (cs.takeWhile isDigit) (more.dropWhile isDigit)
        (some (more.takeWhile isDigit))
      rw [Option.some.inj h] at hle
      simp at hle
      omega
  · split at h
    · simp at h
    · next hne =>
      have hle := length_le_finish (cs.takeWhile isDigit) (cs.dropWhile isDigit) none
      rw [Option.some.inj h] at hle
      have : 0 < (cs.takeWhile isDigit).length := by
        rw [List.length_pos_iff]
        simpa using hne
      simp at hle
      omega

theorem length_lt_of_scan {cs rest : List Char} {n : Numeral} (h : scan cs = some (n, rest)) :
    rest.length < cs.length := by
  have hpos := length_pos_of_scan h
  rw [← chars_append_of_scan h, List.length_append]
  omega

/-- The numeral that the whole text is. -/
def ofChars? (cs : List Char) : Option Numeral :=
  match scan cs with
  | some (n, []) => some n
  | _ => none

end Numeral

/-- The double nearest to a decimal. Numbers far outside the range of doubles are told by their
exponent alone. -/
def Double.ofDecimal (negative : Bool) (d : Decimal) : Double :=
  if d.coefficient = 0 then .nearest negative 0 1
  else if 400 < d.exponent then .infinite negative
  else if d.exponent + d.coefficient.log2 < -400 then .nearest negative 0 1
  else .nearest negative (d.coefficient * Nat.pow 10 d.exponent.toNat)
      (Nat.pow 10 (-d.exponent).toNat)

/-- The double that the digits of a numeral write. -/
def Numeral.toFloat (n : Numeral) : Float := (Double.ofDecimal false n.toDecimal).toFloat

/-- `cs` without the underscores that separate digits; `none` if one stands elsewhere. -/
def dropSeparators? : (afterDigit : Bool) → List Char → Option (List Char)
  | _, [] => some []
  | afterDigit, '_' :: rest =>
    if afterDigit && (rest.head?.any isDigit) then dropSeparators? false rest else none
  | _, c :: rest => (dropSeparators? (isDigit c) rest).map (c :: ·)

/-- The double that a text without a sign writes. -/
def readMagnitude? (negative : Bool) (cs : List Char) : Option Double :=
  let word := String.ofList (cs.map Char.toLower)
  if word = "inf" ∨ word = "infinity" then some (.infinite negative)
  else if word = "nan" then some .nan
  else do
    let n ← Numeral.ofChars? (← dropSeparators? false cs)
    return .ofDecimal negative n.toDecimal

/-- Whether `c` may stand around a number: white space other than the separators. -/
def isPadding (c : Char) : Bool := Text.isBlank c && !Text.isSeparator c

/-- The double that a whole text writes: blanks at the ends are ignored, a sign may come first, and
underscores may separate digits. -/
def readFloat? (s : String) : Option Float :=
  let double? := match Text.stripped isPadding s.toList with
    | '-' :: cs => readMagnitude? true cs
    | '+' :: cs => readMagnitude? false cs
    | cs => readMagnitude? false cs
  double?.map Double.toFloat

end Planar
