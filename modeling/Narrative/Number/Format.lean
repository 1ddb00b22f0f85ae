/-!
Binary floating-point formats and rounding to them. A quotient of naturals is rounded to the nearest
number of the format, and a tie goes to the even significand; all arithmetic is exact.
-/
namespace Narrative

structure Magnitude where
  significand : Nat
  exponent : Int
  deriving DecidableEq

namespace Magnitude

def ratio (x : Magnitude) : Nat × Nat :=
  if 0 ≤ x.exponent then (x.significand <<< x.exponent.toNat, 1)
  else (x.significand, 1 <<< (-x.exponent).toNat)

end Magnitude

/-- The quotient rounded to the nearest natural, a half to the even neighbour. -/
def divEven (num den : Nat) : Nat :=
  let q := num / den
  let r := num % den
  if 2 * r < den ∨ (2 * r = den ∧ q % 2 = 0) then q else q + 1

/-- A format holds significands below `2 ^ precision`, scaled by `2 ^ e` with `lowest ≤ e ≤ highest`. -/
structure Format where
  precision : Nat
  lowest : Int
  highest : Int

namespace Format

def single : Format := ⟨24, -149, 104⟩

def double : Format := ⟨53, -1074, 971⟩

def scaled (num den : Nat) (e : Int) : Nat × Nat :=
  if 0 ≤ e then (num, den <<< e.toNat) else (num <<< (-e).toNat, den)

/-- The exponent whose grid gives `num / den` the whole precision, or the lowest one. -/
def gridExponent (F : Format) (num den : Nat) : Int :=
  let e := (Nat.log2 num : Int) - (Nat.log2 den : Int) - (F.precision : Int)
  let (n, d) := scaled num den e
  max F.lowest (if d <<< F.precision ≤ n then e + 1 else e)

/-- The number of the format nearest to `num / den`; `none` past the largest one. -/
def nearest (F : Format) (num den : Nat) : Option Magnitude :=
  if num = 0 then some ⟨0, F.lowest⟩ else
  let e := F.gridExponent num den
  let (n, d) := scaled num den e
  let m := divEven n d
  let r : Magnitude := if m = 1 <<< F.precision then ⟨m / 2, e + 1⟩ else ⟨m, e⟩
  if r.exponent ≤ F.highest then some r else none

def mul (F : Format) (x y : Magnitude) : Option Magnitude :=
  let (a, b) := x.ratio
  let (c, d) := y.ratio
  F.nearest (a * c) (b * d)

def div (F : Format) (x y : Magnitude) : Option Magnitude :=
  let (a, b) := x.ratio
  let (c, d) := y.ratio
  F.nearest (a * d) (b * c)

end Format

end Narrative
