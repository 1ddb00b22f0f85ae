import Narrative.Stack.Basic

/-!
Two ways to walk down a stack one element at a time. An iterator makes one pass over a stack that stays
as it is. A cursor outlives changes to the stack: one that points to no slot of the stack any more
starts again at the top.
-/
namespace Narrative

/-- The position that an iterator searches below next; one that has run out has none. -/
structure Iterator where
  bound : Option Nat
  deriving DecidableEq

/-- The position of the element handed out last; a fresh cursor has none. -/
structure Cursor where
  position : Option Nat := none
  deriving DecidableEq

namespace Stack
variable {α : Type}

def iterator (s : Stack α) : Iterator := ⟨some s.top⟩

def next [BEq α] (s : Stack α) (it : Iterator) : Option α × Iterator :=
  match it.bound with
  | some n => ((s.below n).map s.slot, ⟨s.below n⟩)
  | none => (none, it)

def reachable (s : Stack α) (i : Nat) : Bool := decide (i < s.top) && !s.bypassed i

def resume (s : Stack α) (c : Cursor) : Nat :=
  match c.position with
  | some i => if s.reachable i then i else s.top
  | none => s.top

/-- Hand out the element below the cursor and move there. Past the bottom there is none, and the
cursor is fresh again. -/
def step [BEq α] (s : Stack α) (c : Cursor) : Option α × Cursor :=
  match s.below (s.resume c) with
  | some i => (some (s.slot i), ⟨some i⟩)
  | none => (none, ⟨none⟩)

end Stack

end Narrative
