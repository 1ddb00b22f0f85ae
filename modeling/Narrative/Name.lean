/-!
Hashes of variable names. A variable is known to the call stack by the hash of its name only, and
the hash zero is kept back for the base of a frame.
-/
namespace Narrative

structure NameHash where
  bits : UInt32
  deriving DecidableEq, Inhabited

namespace NameHash

def invalid : NameHash := ⟨0⟩

def isValid (h : NameHash) : Bool := h != invalid

/-- One round of FNV-1a: mix a byte into the low bits, then multiply by the FNV prime. -/
def absorb (h : UInt32) (byte : UInt8) : UInt32 :=
  (h ^^^ byte.toUInt32) * 0x01000193

def fold (bytes : List UInt8) : UInt32 :=
  bytes.foldl absorb 0x811c9dc5

/-- The fold with zero moved to one, so that `invalid` is never the hash of a name. -/
def ofBytes (bytes : List UInt8) : NameHash :=
  let h := fold bytes
  if h = 0 then ⟨1⟩ else ⟨h⟩

/-- The hash of a name is taken over its UTF-8 encoding. -/
def ofName (name : String) : NameHash :=
  ofBytes name.toUTF8.data.toList

theorem fold_append (p s : List UInt8) : fold (p ++ s) = s.foldl absorb (fold p) := by
  simp [fold]

theorem isValid_ofBytes (bytes : List UInt8) : (ofBytes bytes).isValid = true := by
  unfold ofBytes isValid invalid
  by_cases h : fold bytes = 0 <;> simp [h]

end NameHash

end Narrative
