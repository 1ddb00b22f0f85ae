import Narrative.Json.Reader

/-!
Reading plain data off JSON values. Numbers are taken only where the numeral fits: an integer has to
be written as one and be in range.
-/
namespace Narrative
namespace Json

def integer? : Json → Option Int
  | .num n => n.integer?
  | _ => none

def int32? (j : Json) : Option Int32 := do
  let n ← j.integer?
  if Int32.minValue.toInt ≤ n ∧ n ≤ Int32.maxValue.toInt then pure (Int32.ofInt n) else none

def natBelow? (bound : Nat) (j : Json) : Option Nat := do
  let n ← j.integer?
  if 0 ≤ n ∧ n.toNat < bound then pure n.toNat else none

def word32? (j : Json) : Option UInt32 := (j.natBelow? UInt32.size).map UInt32.ofNat

def word64? (j : Json) : Option UInt64 := (j.natBelow? UInt64.size).map UInt64.ofNat

def single? : Json → Option Binary32
  | .num n => n.single?
  | _ => none

def bool? : Json → Option Bool
  | .bool b => some b
  | _ => none

def str? : Json → Option String
  | .str s => some s
  | _ => none

/-- A choice among alternatives: the name of one, or an object of one member, whose name it is and
whose value goes with it. -/
def choice? : Json → Option (String × Option Json)
  | .str s => some (s, none)
  | .obj [(k, v)] => some (k, some v)
  | _ => none

/-- Whether what goes with a choice is nothing: it is absent or null, or an empty object where
`emptyObject` allows it. -/
def isNothing (emptyObject : Bool) : Option Json → Bool
  | none => true
  | some .null => true
  | some (.obj []) => emptyObject
  | _ => false

def bareChoice? (emptyObject : Bool) (j : Json) : Option String := do
  let (name, payload) ← j.choice?
  if isNothing emptyObject payload then pure name else none

def valuesOf (name : String) (members : List (String × Json)) : List Json :=
  (members.filter (·.1 = name)).map (·.2)

/-- The value of a member that occurs at most once; none at all if it occurs twice. -/
def member? (name : String) (members : List (String × Json)) : Option (Option Json) :=
  match valuesOf name members with
  | [] => some none
  | [v] => some (some v)
  | _ => none

end Json
end Narrative
