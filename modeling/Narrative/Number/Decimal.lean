/-!
Decimals: the shortest one that lies in an interval around a number, and their positional text.
-/
namespace Narrative

structure Decimal where
  digits : Nat
  exponent : Int
  deriving DecidableEq

/-- A number with the interval of the reals that read back as it, all over one denominator. -/
structure Neighbourhood where
  low : Nat
  value : Nat
  high : Nat
  denominator : Nat
  closed : Bool

namespace Neighbourhood

def apart (I : Neighbourhood) (x y : Nat) : Bool := if I.closed then x ≤ y else x < y

/-- The neighbour of the value on the grid of step `10 ^ k` that lies in the interval. Of two the
nearer is taken, and of two equally near ones the greater. -/
def onGrid (I : Neighbourhood) (k : Int) : Option Decimal :=
  let up := Nat.pow 10 (-k).toNat
  let step := I.denominator * Nat.pow 10 k.toNat
  let v := I.value * up
  let d := v / step
  let down := decide (0 < d) && I.apart (I.low * up) (d * step)
  let roundsUp := I.apart ((d + 1) * step) (I.high * up)
  if down && (!roundsUp || decide (2 * v < (2 * d + 1) * step)) then some ⟨d, k⟩
  else if roundsUp then some ⟨d + 1, k⟩
  else none

/-- The shortest decimal of the interval: the coarsest grid that has one wins. Grids are tried from
`10 ^ coarsest` downwards, `count` of them. -/
def shortest (I : Neighbourhood) (coarsest : Int) (count : Nat) : Option Decimal :=
  (List.range count).findSome? fun (i : Nat) => I.onGrid (coarsest - i)

end Neighbourhood

namespace Decimal

def text (x : Decimal) : String :=
  let ds := Nat.toDigits 10 x.digits
  if 0 ≤ x.exponent then String.ofList (ds ++ List.replicate x.exponent.toNat '0')
  else
    let places := (-x.exponent).toNat
    let padded := List.replicate (places + 1 - ds.length) '0' ++ ds
    let whole := padded.length - places
    String.ofList (padded.take whole ++ '.' :: padded.drop whole)

end Decimal

end Narrative
