import Narrative.CallStack.Entry
import Narrative.Stack.Operations

/-!
The call stack: frames of variables. A frame begins with a boundary entry that tells where to return
to; the entries above it are the variables of the frame. Entries below the first boundary are
variables outside any frame.
-/
namespace Narrative

abbrev CallStack := Stack Entry

abbrev CallM := StackM Entry

namespace CallStack

def ofCapacity (capacity : Nat) : CallStack := Stack.ofCapacity capacity Entry.null

/-- The first of some positions with a name, looked for down to the next boundary. -/
def locate (s : CallStack) (name : NameHash) : List Nat → Option Nat
  | [] => none
  | i :: rest =>
    if (s.slot i).name = name then some i
    else if (s.slot i).isBoundary then none
    else locate s name rest

def find (s : CallStack) (name : NameHash) : Option Nat :=
  if name.isValid then locate s name s.positions else none

def get? (s : CallStack) (name : NameHash) : Option Value :=
  (find s name).map fun i => (s.slot i).value

def assign (s : CallStack) (i : Nat) (value : Value) : CallStack :=
  { s with slots := s.slots.modify i ({ · with value := value }) }

/-- Set a variable of the innermost frame. A variable that is there already is overwritten, but not
while a save is outstanding: then a new entry hides the old one, which a restore may need. -/
def set (name : NameHash) (value : Value) : CallM Unit := fun s =>
  if name.isValid then
    match if s.hasSnapshot then none else find s name with
    | some i => .ok () (assign s i value)
    | none => Stack.push ⟨name, value⟩ s
  else .error .reservedName s

def pushFrame (record : Frame) : CallM Unit := Stack.push (.boundary record)

def hasFrame (s : CallStack) : Bool := s.toList.any Entry.isBoundary

def depth (s : CallStack) : Nat := s.toList.countP Entry.isBoundary

/-- Pop entries, so many at most, until a boundary has been popped, and return its record. -/
def popToBoundary : Nat → CallM Frame
  | 0 => throw .underflow
  | n + 1 => do
    let e ← Stack.pop
    if e.isBoundary then
      match e.value.asFrame with
      | some record => pure record
      | none => throw .boundaryWithoutFrame
    else popToBoundary n

/-- Leave the innermost frame. Every pop lowers the top, so `top` pops reach the boundary. -/
def popFrame : CallM Frame := fun s =>
  if s.isEmpty then .error .underflow s
  else if hasFrame s then popToBoundary s.top s
  else .error .noFrame s

def markIn (s : CallStack) (t : StringTable) : StringTable :=
  s.live.foldl (fun t e => e.value.markIn t) t

end CallStack

end Narrative
