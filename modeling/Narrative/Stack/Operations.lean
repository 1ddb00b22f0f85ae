import Narrative.Stack.Error
import Narrative.Stack.Basic

/-!
The operations that change a stack or may fail: push, pop and peek, clear, save, restore and forget.
An operation that fails says what the stack is then.
-/
namespace Narrative

abbrev StackM (α : Type) := EStateM StackError (Stack α)

namespace Stack
variable {α : Type}

section Elements
variable [BEq α]

/-- Put an element on top. It is written at the frontier, so that saved data stays as it is. -/
def push (v : α) : StackM α Unit := fun s =>
  if v == s.null then .error .nullPushed s
  else if s.capacity ≤ s.frontier then .error (.overflow s.capacity) s
  else .ok ()
    { s with
      slots := s.slots.setIfInBounds s.frontier v
      top := s.frontier + 1
      snapshot := s.relocated }

/-- Take the element on top, and the tombstones above it with it. -/
def pop : StackM α α := fun s =>
  match s.seekBelow s.top with
  | (some i, skipped) => .ok (s.slot i) { s with top := i, dead := wordSub s.dead skipped }
  -- the tombstones at the bottom stay, and with them the top
  | (none, _) => .error .underflow s

def peek : StackM α α := fun s =>
  match s.peek? with
  | some v => .ok v s
  | none => .error .underflow s

end Elements

def clear : StackM α Unit := fun s =>
  if s.hasSnapshot then .error .clearWhileSaved s else .ok () s.reset

def save : StackM α Unit := fun s =>
  match s.snapshot with
  | some _ => .error .savedTwice s
  | none => .ok () { s with snapshot := some ⟨s.top, s.top, s.dead⟩ }

def restore : StackM α Unit := fun s =>
  match s.snapshot with
  | some p => .ok () { s with top := p.save, dead := p.dead, snapshot := none }
  | none => .error .restoreUnsaved s

def forget : StackM α Unit := fun s =>
  match s.snapshot with
  | some p => .ok ()
      { s with
        slots := s.entomb p
        -- tombstones above the top lie in free slots, so they do not count
        dead := if p.save ≤ s.top then s.dead + (p.save - p.jump) else s.dead
        snapshot := none }
  | none => .error .forgetUnsaved s

end Stack

end Narrative
