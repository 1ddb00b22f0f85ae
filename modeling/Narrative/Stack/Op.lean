import Narrative.Attempt
import Narrative.Stack.Operations
import Narrative.Stack.Cursor

/-!
The operations of a stack as data, with their answers, so that histories of a stack are lists.
-/
namespace Narrative
namespace Stack
variable {α : Type}

/-- The operations that take no element: they are the same for every kind of stack. -/
inductive Control where
  | size
  | isEmpty
  | capacity
  | hasSnapshot
  | toList
  | clear
  | reset
  | save
  | restore
  | forget
  deriving DecidableEq

inductive Op (α : Type) where
  | push (v : α)
  | pop
  | peek
  | null
  | live
  | step (c : Cursor)
  | control (k : Control)

inductive Answer (α : Type) where
  | done
  | element (v : α)
  | elements (vs : List α)
  | count (n : Nat)
  | flag (b : Bool)
  | stepped (v : Option α) (c : Cursor)

def Control.perform [BEq α] : Control → StackM α (Answer α)
  | .size => query fun s => .count s.size
  | .isEmpty => query fun s => .flag s.isEmpty
  | .capacity => query fun s => .count s.capacity
  | .hasSnapshot => query fun s => .flag s.hasSnapshot
  | .toList => query fun s => .elements s.toList
  | .clear => do Stack.clear; pure .done
  | .reset => do change Stack.reset; pure .done
  | .save => do Stack.save; pure .done
  | .restore => do Stack.restore; pure .done
  | .forget => do Stack.forget; pure .done

def Op.perform [BEq α] : Op α → StackM α (Answer α)
  | .push v => do Stack.push v; pure .done
  | .pop => do pure (.element (← Stack.pop))
  | .peek => do pure (.element (← Stack.peek))
  | .null => query fun s => .element s.null
  | .live => query fun s => .elements s.live
  | .step c => query fun s => let (v, c) := s.step c; .stepped v c
  | .control k => k.perform

end Stack
end Narrative
