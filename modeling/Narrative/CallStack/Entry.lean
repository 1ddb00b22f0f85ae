import Narrative.Name
import Narrative.Value

/-!
The entries of a call stack: variables, and the boundaries at which frames begin.
-/
namespace Narrative

structure Entry where
  name : NameHash
  value : Value
  deriving Inhabited

namespace Entry

instance : BEq Entry where
  beq a b := a.name == b.name && a.value == b.value

def null : Entry := ⟨.invalid, .none⟩

/-- The base of a frame has no name but a value. -/
def isBoundary (e : Entry) : Bool := !e.name.isValid && !e.value.isNone

def boundary (record : Frame) : Entry := ⟨.invalid, .frame record⟩

/-- So many hexadecimal digits of a number, the last ones. -/
def hexDigits : Nat → Nat → List Char
  | 0, _ => []
  | width + 1, n => hexDigits width (n / 16) ++ [Nat.digitChar (n % 16)]

/-- A boundary shows as its value, a variable with the eight hexadecimal digits of its hash. -/
def text (e : Entry) : String :=
  if e.isBoundary then e.value.text
  else "#" ++ String.ofList (hexDigits 8 e.name.bits.toNat) ++ "=" ++ e.value.text

end Entry

end Narrative
