import Narrative.Number.Format
import Narrative.Number.Decimal

/-!
Single-precision numbers, kept as their 32 bits. Comparison is numeric: the two zeros are equal and
a number that is no number differs from everything, itself included.
-/
namespace Narrative

structure Binary32 where
  bits : UInt32
  deriving DecidableEq, Inhabited

namespace Binary32

def negative (x : Binary32) : Bool := 0x80000000 ≤ x.bits

def unsigned (x : Binary32) : Nat := x.bits.toNat % 0x80000000

def infinityBits : Nat := 0x7f800000

/-- The leading bit of a significand, which is not stored: fractions lie below it. -/
def hiddenBit : Nat := 0x800000

def isNaN (x : Binary32) : Bool := infinityBits < x.unsigned

def isInfinite (x : Binary32) : Bool := x.unsigned = infinityBits

def isZero (x : Binary32) : Bool := x.unsigned = 0

instance : BEq Binary32 where
  beq x y := !x.isNaN && !y.isNaN && (x.bits == y.bits || (x.isZero && y.isZero))

def magnitude (x : Binary32) : Magnitude :=
  let e : Nat := x.unsigned / hiddenBit
  let f : Nat := x.unsigned % hiddenBit
  if e = 0 then ⟨f, -149⟩ else ⟨hiddenBit + f, (e : Int) - 150⟩

/-- The bits of a rounded magnitude, or of infinity, with a sign. Counting on from the bits of one
significand to the next crosses into the next exponent by itself. -/
def ofMagnitude (negative : Bool) (x : Option Magnitude) : Binary32 :=
  let body := match x with
    | some m => m.significand + (m.exponent + 149).toNat * hiddenBit
    | none => infinityBits
  ⟨UInt32.ofNat (if negative then 0x80000000 + body else body)⟩

/-- The single nearest to a quotient; a tie goes to the even one, and past the largest lies infinity. -/
def ofRatio (negative : Bool) (num den : Nat) : Binary32 :=
  ofMagnitude negative (Format.single.nearest num den)

def ofInt (n : Int) : Binary32 := ofRatio (n < 0) n.natAbs 1

/-- The reals that round to a finite number other than zero. Half a step lies on either side; below
a power of two the steps are half as wide. The ends round to the number if its significand is even. -/
def neighbourhood (x : Binary32) : Neighbourhood :=
  let m := x.magnitude
  let narrow := m.significand = hiddenBit ∧ -149 < m.exponent
  let up := (m.exponent - 2).toNat
  { low := (4 * m.significand - if narrow then 1 else 2) <<< up
    value := (4 * m.significand) <<< up
    high := (4 * m.significand + 2) <<< up
    denominator := 1 <<< (2 - m.exponent).toNat
    closed := m.significand % 2 = 0 }

/-- The fewest decimal digits that read back as the number, nearest to it among those. No finite
single needs a grid coarser than `10 ^ 38` or finer than `10 ^ (-46)`. -/
def shortest (x : Binary32) : Decimal :=
  (x.neighbourhood.shortest 38 85).getD ⟨0, 0⟩

/-- Text without an exponent and without a fraction that is zero. The sign of zero is shown, that of
what is no number is not. -/
def text (x : Binary32) : String :=
  if x.isNaN then "NaN" else
  let body := if x.isInfinite then "inf" else if x.isZero then "0" else x.shortest.text
  if x.negative then "-" ++ body else body

end Binary32

end Narrative
