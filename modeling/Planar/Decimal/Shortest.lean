import Planar.Decimal.Double

/-!
# Shortest decimals

The shortest decimal that reads back as a given double, and of several the one nearest to it. The
decimals that read back form an interval around the double; the search goes through ever finer
decimal grids and stops at the first that has a point in the interval.
-/

namespace Planar

/-- The decimal number `coefficient * 10 ^ exponent`. -/
structure Decimal where
  coefficient : Nat
  exponent : Int
deriving DecidableEq

namespace Decimal

/-- Whether the double below `m * 2 ^ q` is only half as far away as the one above. -/
def narrowBelow (m : Nat) (q : Int) : Bool := m == Nat.pow 2 52 && Double.leastExponent < q

/-- Whether `g * 10 ^ k` reads back as `m * 2 ^ q`: it lies within half the distance to either
neighbour, the ends included when `m` is even. Lengths are in quarters of `2 ^ q`. -/
def readsBack (m : Nat) (q : Int) (g : Nat) (k : Int) : Bool :=
  let unit := Nat.pow 2 q.toNat * Nat.pow 10 (-k).toNat
  let point := 4 * g * (Nat.pow 2 (-q).toNat * Nat.pow 10 k.toNat)
  let low := (4 * m - if narrowBelow m q then 1 else 2) * unit
  let high := (4 * m + 2) * unit
  if m % 2 = 0 then low ≤ point && point ≤ high else low < point && point < high

/-- The multiple of `10 ^ k` that reads back as `m * 2 ^ q` and is nearest to it, if there is one;
of two equally near ones the even one. -/
def onGrid? (m : Nat) (q k : Int) : Option Decimal :=
  let num := m * (Nat.pow 2 q.toNat * Nat.pow 10 (-k).toNat)
  let den := Nat.pow 2 (-q).toNat * Nat.pow 10 k.toNat
  let floor := num / den
  let near := roundHalfEven num den
  -- The interval is not symmetric below a power of two, so the farther neighbour may be in it.
  let far := if near = floor then floor + 1 else floor
  if readsBack m q near k then some ⟨near, k⟩
  else if readsBack m q far k then some ⟨far, k⟩
  else none

/-- Every digit of `m * 2 ^ q`. -/
def exact (m : Nat) (q : Int) : Decimal :=
  if 0 ≤ q then ⟨m * Nat.pow 2 q.toNat, 0⟩ else ⟨m * Nat.pow 5 (-q).toNat, q⟩

/-- The shortest decimal that reads back as the double `m * 2 ^ q`. The grids run from the power
of ten above the double down to its seventeenth digit, which always suffices. -/
def shortest (m : Nat) (q : Int) : Decimal :=
  -- A double just below a power of ten may have that power as its shortest decimal.
  let top := decade (m * Nat.pow 2 q.toNat) (Nat.pow 2 (-q).toNat) + 1
  ((List.range 18).findSome? fun i : Nat => onGrid? m q (top - i)).getD (exact m q)

end Decimal

end Planar
