/-!
Strings made at run time. A table hands out handles to texts; a sweep frees every text that was not
marked since the last sweep, and freed handles are given out again, the last freed first.
-/
namespace Narrative

structure StringId where
  index : UInt32
  deriving DecidableEq, Inhabited

/-- The handle of a slot. Handles have 32 bits, so a slot past the last of them shares its handle. -/
def StringId.ofIndex (i : Nat) : StringId := ⟨UInt32.ofNat i⟩

structure StringCell where
  text : String
  marked : Bool
  deriving DecidableEq

def StringCell.survive (c : StringCell) : Option StringCell :=
  if c.marked then some { c with marked := false } else none

/-- A slot is empty once its text has been freed; `free` lists the handles of the empty slots, last
freed first. -/
structure StringTable where
  slots : Array (Option StringCell) := #[]
  free : List StringId := []

namespace StringTable

def empty : StringTable := {}

def cell? (t : StringTable) (id : StringId) : Option StringCell :=
  t.slots[id.index.toNat]?.join

def get? (t : StringTable) (id : StringId) : Option String :=
  (t.cell? id).map StringCell.text

/-- Store a text, unmarked, in the slot freed last or else in a new one. -/
def create (t : StringTable) (text : String) : StringId × StringTable :=
  let cell := some { text, marked := false }
  match t.free with
  | id :: rest => (id, { slots := t.slots.setIfInBounds id.index.toNat cell, free := rest })
  | [] => (.ofIndex t.slots.size, { t with slots := t.slots.push cell })

def mark (t : StringTable) (id : StringId) : StringTable :=
  { t with slots := t.slots.modify id.index.toNat (Option.map ({ · with marked := true })) }

def garbage (t : StringTable) : List Nat :=
  (List.range t.slots.size).filter fun i =>
    match t.slots[i]? with
    | some (some c) => !c.marked
    | _ => false

/-- Free every text without a mark, clear all marks, and count what was freed. -/
def sweep (t : StringTable) : Nat × StringTable :=
  let freed := t.garbage
  (freed.length,
    { slots := t.slots.map (·.bind StringCell.survive)
      -- handles are freed in ascending order, each put in front of those before
      free := (freed.map StringId.ofIndex).reverse ++ t.free })

def size (t : StringTable) : Nat := t.slots.size - t.free.length

def isEmpty (t : StringTable) : Bool := t.size == 0

end StringTable

end Narrative
