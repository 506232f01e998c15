import Planar.Decimal.Shortest

/-!
# Number text

Four ways to write a number. `floatText` writes the fewest digits that read back, always with a
point or an exponent, and spells the doubles that are no numbers. `numberText?` writes the same
digits as source text, where a whole number has no point and neither zero has a sign.
`significantText` keeps six digits for traces, and `fixedChars` keeps a given number of places.
-/

namespace Planar

/-- The choices in writing a decimal: the powers of ten of the leading digit from `low` up to and
without `high` are written positionally, and `whole` follows a positional number that has no
fraction. -/
structure Layout where
  low : Int
  high : Int
  whole : List Char

namespace Layout

/-- Sixteen places before the point and four zeros after it are written out; a whole number ends
in a point and a zero. -/
def shortest : Layout := ⟨-4, 16, ['.', '0']⟩

/-- Six places before the point are written out, and a whole number has no mark. -/
def significant : Layout := ⟨-4, 6, []⟩

/-- The digits `ds`, the first of which counts `10 ^ e`, with a point where it falls. -/
def positional (whole ds : List Char) (e : Int) : List Char :=
  if e < 0 then '0' :: '.' :: List.replicate (-e - 1).toNat '0' ++ ds
  else
    let places := e.toNat + 1
    if ds.length ≤ places then ds ++ List.replicate (places - ds.length) '0' ++ whole
    else ds.take places ++ '.' :: ds.drop places

/-- The sign and at least `least` digits of an exponent. -/
def exponent (least : Nat) (e : Int) : List Char :=
  let ds := Nat.toDigits 10 e.natAbs
  (if e < 0 then '-' else '+') :: List.replicate (least - ds.length) '0' ++ ds

/-- The least number of digits of an exponent. -/
def exponentDigits : Nat := 2

/-- The digits `ds` with a point after the first and the exponent `e`. -/
def scientific (ds : List Char) (e : Int) : List Char :=
  let mantissa := match ds with
    | d :: more@(_ :: _) => d :: '.' :: more
    | ds => ds
  mantissa ++ 'e' :: exponent exponentDigits e

/-- The text of a decimal. -/
def write (layout : Layout) (d : Decimal) : List Char :=
  let ds := Nat.toDigits 10 d.coefficient
  let e := d.exponent + (ds.length - 1)
  if layout.low ≤ e ∧ e < layout.high then positional layout.whole ds e else scientific ds e

end Layout

/-- `cs` after a minus sign if there is one. -/
def signed (negative : Bool) (cs : List Char) : List Char := if negative then '-' :: cs else cs

/-- The fewest digits that read back as `mantissa * 2 ^ exponent`. -/
def Decimal.ofFinite (mantissa : Nat) (exponent : Int) : Decimal :=
  if mantissa = 0 then ⟨0, 0⟩ else Decimal.shortest mantissa exponent

/-- The text of a number with the fewest digits that read back. -/
def Double.chars : Double → List Char
  | .nan => ['n', 'a', 'n']
  | .infinite negative => signed negative ['i', 'n', 'f']
  | .finite negative mantissa exponent =>
    signed negative (Layout.shortest.write (.ofFinite mantissa exponent))

/-- The text of a double with the fewest digits that read back. -/
def floatText (x : Float) : String := String.ofList (Double.ofFloat x).chars

/-- A finite number as it stands in source text. -/
def Double.sourceChars? : Double → Option (List Char)
  | .finite negative mantissa exponent =>
    some <|
      if mantissa = 0 then ['0']
      else
        signed negative ({ Layout.shortest with whole := [] }.write (.shortest mantissa exponent))
  | _ => none

/-- A double as it stands in source text, unless it is an infinity or no number. -/
def numberText? (x : Float) : Option String := (Double.ofFloat x).sourceChars?.map String.ofList

/-- `cs` without the zeros at its end. -/
def dropZeros (cs : List Char) : List Char := (cs.reverse.dropWhile (· == '0')).reverse

/-- The multiple of `10 ^ scale` nearest to `num / den`, without its trailing zeros. -/
def Decimal.nearest (scale : Int) (num den : Nat) : Decimal :=
  let coefficient := roundHalfEven (num * Nat.pow 10 (-scale).toNat) (den * Nat.pow 10 scale.toNat)
  let zeros := ((Nat.toDigits 10 coefficient).reverse.takeWhile (· == '0')).length
  ⟨coefficient / Nat.pow 10 zeros, scale + zeros⟩

/-- The decimal of `places` digits nearest to `num / den`, without its trailing zeros. -/
def Decimal.rounded (places num den : Nat) : Decimal :=
  -- Rounding up may reach the next power of ten, whose zeros are dropped like any others.
  .nearest (decade num den - (places - 1)) num den

/-- The text of a double to six significant digits. -/
def significantText (x : Float) : String :=
  let number := Double.ofFloat x
  String.ofList <|
    match number, number.ratio? with
    | _, some r =>
      signed r.negative <|
        if r.num = 0 then ['0'] else Layout.significant.write (.rounded 6 r.num r.den)
    | number, none => number.chars

/-- The fraction `num / den` rounded to a number of places after the point, all written out. -/
def fixedChars (places num den : Nat) : List Char :=
  let ds := Nat.toDigits 10 (roundHalfEven (num * Nat.pow 10 places) den)
  let ds := List.replicate (places + 1 - ds.length) '0' ++ ds
  let whole := ds.take (ds.length - places)
  if places = 0 then whole else whole ++ '.' :: ds.drop (ds.length - places)

end Planar
