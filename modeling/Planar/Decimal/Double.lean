import Planar.Decimal.Rounding

/-!
# Doubles as numbers

A double is not a number, an infinity, or a signed natural number times a power of two. This
module reads a double that way and rounds a fraction to the nearest double.
-/

namespace Planar

open Float.Model (UnpackedFloat)

/-- What a double stands for; the finite one is `mantissa * 2 ^ exponent` with its sign. -/
inductive Double where
  | nan
  | infinite (negative : Bool)
  | finite (negative : Bool) (mantissa : Nat) (exponent : Int)
deriving DecidableEq

namespace Double

/-- The least exponent of a double. -/
def leastExponent : Int := -1074

/-- The greatest exponent of a double with a full mantissa. -/
def greatestExponent : Int := 971

/-- Whether a sign is the negative one. -/
def isNegative : UnpackedFloat.Sign → Bool
  | .negative => true
  | .positive => false

/-- The sign that is negative exactly when the flag is set. -/
def signOf (negative : Bool) : UnpackedFloat.Sign := if negative then .negative else .positive

/-- The number in a double. -/
def ofFloat (x : Float) : Double :=
  match x.toModel.unpack with
  | .notANumber => .nan
  | .infinity sign => .infinite (isNegative sign)
  | .zero sign => .finite (isNegative sign) 0 leastExponent
  | .finite sign mantissa exponent _ => .finite (isNegative sign) mantissa exponent

/-- The double that holds a number. -/
def toFloat : Double → Float
  | .nan => .ofModel (.pack .notANumber)
  | .infinite negative => .ofModel (.pack (.infinity (signOf negative)))
  | .finite negative mantissa exponent =>
    if h : 0 < mantissa then .ofModel (.pack (.finite (signOf negative) mantissa exponent h))
    else .ofModel (.pack (.zero (signOf negative)))

/-- The finite number, or an infinity when its exponent is too great. -/
def bounded (negative : Bool) (mantissa : Nat) (exponent : Int) : Double :=
  if greatestExponent < exponent then .infinite negative else .finite negative mantissa exponent

/-- The double nearest to `num / den`; of two equally near ones the one with an even mantissa. -/
def nearest (negative : Bool) (num den : Nat) : Double :=
  if num = 0 then .finite negative 0 leastExponent
  else
    let exponent := max leastExponent (binade num den - 52)
    let mantissa :=
      roundHalfEven (num * Nat.pow 2 (-exponent).toNat) (den * Nat.pow 2 exponent.toNat)
    -- Rounding up may carry into the next binade.
    if mantissa = Nat.pow 2 53 then bounded negative (Nat.pow 2 52) (exponent + 1)
    else bounded negative mantissa exponent

end Double

/-- A fraction with its sign; the sign stands apart so that a zero keeps it. -/
structure Ratio where
  negative : Bool
  num : Nat
  den : Nat
  den_pos : 0 < den

/-- The exact value of a double, unless it is an infinity or no number. -/
def Double.ratio? : Double → Option Ratio
  | .finite negative mantissa exponent =>
    some ⟨negative, mantissa * Nat.pow 2 exponent.toNat, Nat.pow 2 (-exponent).toNat,
      Nat.two_pow_pos _⟩
  | _ => none

end Planar
