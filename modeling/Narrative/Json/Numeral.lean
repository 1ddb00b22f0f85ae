import Narrative.Number.Digits
import Narrative.Number.Binary32

/-!
Numerals as JSON writes them, and the numbers they stand for. A numeral keeps its digits, since its
value as a floating-point number depends on how they are accumulated.
-/
namespace Narrative

structure Numeral where
  negative : Bool := false
  whole : List Nat
  fraction : List Nat := []
  exponent : Option Int := none
  deriving DecidableEq

namespace Numeral

def ofInt (n : Int) : Numeral :=
  { negative := n < 0, whole := Digits.ofNat n.natAbs }

def ofNat (n : Nat) : Numeral := ofInt n

def wholeDigits? (cs : List Char) : Option (List Nat) :=
  match cs with
  | [] => none
  | ['0'] => some [0]
  | '0' :: _ => none
  | _ => some (cs.map Digits.ofChar)

def ofUnsigned? (negative : Bool) (cs : List Char) : Option Numeral := do
  let whole ← wholeDigits? (cs.takeWhile Char.isDigit)
  match cs.dropWhile Char.isDigit with
  | '.' :: rest =>
    let fraction ← Digits.ofChars? (rest.takeWhile Char.isDigit)
    let exponent ← Digits.exponent? (rest.dropWhile Char.isDigit)
    pure { negative, whole, fraction, exponent }
  | rest =>
    let exponent ← Digits.exponent? rest
    pure { negative, whole, exponent }

def ofChars? : List Char → Option Numeral
  | '-' :: cs => ofUnsigned? true cs
  | cs => ofUnsigned? false cs

def chars (n : Numeral) : List Char :=
  (if n.negative then ['-'] else []) ++ n.whole.map Nat.digitChar ++
  (if n.fraction = [] then [] else '.' :: n.fraction.map Nat.digitChar) ++
  (match n.exponent with
    | none => []
    | some e => 'e' :: (if e < 0 then ['-'] else []) ++ Nat.toDigits 10 e.natAbs)

/-- The integer that a numeral is written as: it has neither point nor exponent, is not a negative
zero, and fits 64 bits, with a sign only if it is negative. -/
def integer? (n : Numeral) : Option Int :=
  if n.fraction = [] ∧ n.exponent = none then
    let v := Digits.value n.whole
    if n.negative then if v = 0 ∨ UInt64.size < 2 * v then none else some (-(v : Int))
    else if v < UInt64.size then some (v : Int) else none
  else none

/-- Append whole digits to a 64-bit significand. Once one does not fit, it and the ones after it are
only counted. -/
def appendWhole : Nat → List Nat → Nat × Nat
  | sig, [] => (sig, 0)
  | sig, d :: ds =>
    if 10 * sig + d < UInt64.size then appendWhole (10 * sig + d) ds else (sig, ds.length + 1)

/-- Append fraction digits to a 64-bit significand and count them, up to the first that does not fit. -/
def appendFraction : Nat → List Nat → Nat × Nat
  | sig, [] => (sig, 0)
  | sig, d :: ds =>
    if 10 * sig + d < UInt64.size then
      let (sig', used) := appendFraction (10 * sig + d) ds
      (sig', used + 1)
    else (sig, 0)

/-- A double times a power of ten: one product or quotient by the double nearest to the power. Two
quotients are needed below `10 ^ (-308)`, and two such powers take any 64-bit number to zero. -/
def scale (x : Magnitude) (e : Int) : Option Magnitude := do
  let power (k : Nat) : Option Magnitude := Format.double.nearest (Nat.pow 10 k) 1
  if x.significand = 0 then return x
  if 308 < e then none
  else if 0 ≤ e then Format.double.mul x (← power e.toNat)
  else if -308 ≤ e then Format.double.div x (← power (-e).toNat)
  else if -616 ≤ e then
    Format.double.div (← Format.double.div x (← power 308)) (← power (-e - 308).toNat)
  else return ⟨0, Format.double.lowest⟩

/-- The double that a numeral is read as, sign aside: the leading digits that fit 64 bits, rounded,
then scaled. There is none past the largest double. -/
def double? (n : Numeral) : Option Magnitude := do
  let (sig, dropped) := appendWhole 0 n.whole
  let (sig, used) := appendFraction sig n.fraction
  scale (← Format.double.nearest sig 1) ((dropped : Int) - (used : Int) + n.exponent.getD 0)

/-- The single that a numeral is read as. An integer is rounded once, any other numeral to a double
first. -/
def single? (n : Numeral) : Option Binary32 :=
  match n.integer? with
  | some i => some (Binary32.ofInt i)
  | none => n.double?.map fun m => Binary32.ofRatio n.negative m.ratio.1 m.ratio.2

end Numeral

end Narrative
