/-!
A stack over a fixed row of slots, with one level of save, restore and forget.

While a save is outstanding, the slots below `jump` hold saved data that is still on the stack, those
from `jump` up to `save` hold saved data that a push went past, and those from `save` up to `top`
hold what was pushed since. A push never writes below `save`, so that a restore finds all it needs.
A forget fills the bypassed slots with the null element; such tombstones are passed over by every
read.
-/
namespace Narrative

/-- What a stack remembers of its last save: where the top was, where a push left saved data to jump
over the rest of it, and how many tombstones there were. -/
structure Snapshot where
  save : Nat
  jump : Nat
  dead : Nat
  deriving DecidableEq

/-- The slots at and above `top` are free; `dead` counts the tombstones on the stack. -/
structure Stack (α : Type) where
  slots : Array α
  null : α
  top : Nat := 0
  dead : Nat := 0
  snapshot : Option Snapshot := none

/-- The difference of two 64-bit counters, which wraps round below zero. -/
def wordSub (a b : Nat) : Nat := if b ≤ a then a - b else a + UInt64.size - b

namespace Stack
variable {α : Type}

/-- An empty stack over given slots, whatever they hold. -/
def ofSlots (slots : Array α) (null : α) : Stack α := { slots, null }

def ofCapacity (capacity : Nat) (null : α) : Stack α :=
  ofSlots (Array.replicate capacity null) null

def capacity (s : Stack α) : Nat := s.slots.size

/-- What a slot holds; outside the row there is nothing but the null element. -/
def slot (s : Stack α) (i : Nat) : α := s.slots.getD i s.null

def hasSnapshot (s : Stack α) : Bool := s.snapshot.isSome

def bypassed (s : Stack α) (i : Nat) : Bool :=
  match s.snapshot with
  | some p => decide (p.jump ≤ i) && decide (i < p.save)
  | none => false

/-- The first slot that may be written: above everything on the stack and everything saved. -/
def frontier (s : Stack α) : Nat :=
  match s.snapshot with
  | some p => max s.top p.save
  | none => s.top

/-- Every slot that a later read may see, those of saved data included, from the bottom up. -/
def live (s : Stack α) : List α := s.slots.toList.take s.frontier

def relocated (s : Stack α) : Option Snapshot :=
  s.snapshot.map fun p => if s.top < p.save then { p with jump := s.top } else p

def size (s : Stack α) : Nat :=
  -- only a top that has reached the save has the bypassed slots below it
  let span := match s.snapshot with
    | some p => if p.save ≤ s.top then s.top - (p.save - p.jump) else s.top
    | none => s.top
  wordSub span s.dead

def isEmpty (s : Stack α) : Bool := s.size == 0

def reset (s : Stack α) : Stack α := { s with top := 0, dead := 0, snapshot := none }

def entomb (s : Stack α) (p : Snapshot) : Array α :=
  s.slots.mapIdx fun i v => if p.jump ≤ i ∧ i < p.save then s.null else v

section Reads
variable [BEq α]

/-- The nearest element below a position, and the number of tombstones passed on the way. -/
def seekBelow (s : Stack α) : Nat → Option Nat × Nat
  | 0 => (none, 0)
  | i + 1 =>
    if s.bypassed i then s.seekBelow i
    else if s.slot i == s.null then
      let (found, skipped) := s.seekBelow i
      (found, skipped + 1)
    else (some i, 0)

def below (s : Stack α) (position : Nat) : Option Nat := (s.seekBelow position).1

/-- The positions of the elements below a position, from the top down. -/
def positionsBelow (s : Stack α) : Nat → List Nat
  | 0 => []
  | i + 1 =>
    if s.bypassed i || s.slot i == s.null then s.positionsBelow i
    else i :: s.positionsBelow i

def positions (s : Stack α) : List Nat := s.positionsBelow s.top

def toList (s : Stack α) : List α := s.positions.map s.slot

def peek? (s : Stack α) : Option α := (s.below s.top).map s.slot

theorem below_eq_head? (s : Stack α) (n : Nat) : s.below n = (s.positionsBelow n).head? := by
  unfold below
  induction n with
  | zero => rfl
  | succ i ih =>
    by_cases hb : s.bypassed i
    · simp [seekBelow, positionsBelow, hb, ih]
    · by_cases hn : s.slot i == s.null
      · simp [seekBelow, positionsBelow, hb, hn, ih]
      · simp [seekBelow, positionsBelow, hb, hn]

theorem mem_positionsBelow {s : Stack α} {n i : Nat} :
    i ∈ s.positionsBelow n ↔ i < n ∧ s.bypassed i = false ∧ (s.slot i == s.null) = false := by
  induction n with
  | zero => simp [positionsBelow]
  | succ j ih =>
    by_cases h : s.bypassed j || s.slot j == s.null
    · rw [positionsBelow, if_pos h, ih]
      constructor
      · exact fun hi => ⟨by omega, hi.2⟩
      · intro hi
        refine ⟨Nat.lt_of_le_of_ne (by omega) ?_, hi.2⟩
        rintro rfl
        simp [hi.2] at h
    · rw [positionsBelow, if_neg h, List.mem_cons, ih]
      constructor
      · rintro (rfl | hi)
        · exact ⟨by omega, by simpa using h⟩
        · exact ⟨by omega, hi.2⟩
      · intro hi
        by_cases hij : i = j
        · exact .inl hij
        · exact .inr ⟨by omega, hi.2⟩

theorem pairwise_positionsBelow (s : Stack α) (n : Nat) :
    (s.positionsBelow n).Pairwise (· > ·) := by
  induction n with
  | zero => exact .nil
  | succ j ih =>
    by_cases h : s.bypassed j || s.slot j == s.null
    · rwa [positionsBelow, if_pos h]
    · rw [positionsBelow, if_neg h, List.pairwise_cons]
      exact ⟨fun i hi => (mem_positionsBelow.mp hi).1, ih⟩

theorem peek?_eq_head? (s : Stack α) : s.peek? = s.toList.head? := by
  simp [peek?, toList, positions, below_eq_head?]

end Reads

end Stack

end Narrative
