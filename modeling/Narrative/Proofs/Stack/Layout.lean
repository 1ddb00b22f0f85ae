import Narrative.Proofs.Stack.Outcomes

/-! Layouts: the elements of a stack with the slots they lie in, now and at the last save. On well
formed stacks each operation acts on the layout alone, so that statements about histories need not
speak of tombstones, bypassed slots or counters. -/
namespace Narrative
variable {α : Type}

/-- Where the top is, and the elements with their slots from the top down. -/
structure Sheet (α : Type) where
  top : Nat
  cells : List (Nat × α)

def Sheet.elements (r : Sheet α) : List α := r.cells.map Prod.snd

structure Layout (α : Type) where
  capacity : Nat
  null : α
  now : Sheet α
  saved : Option (Sheet α) := none

namespace Layout

def frontier (l : Layout α) : Nat :=
  match l.saved with
  | some r => max l.now.top r.top
  | none => l.now.top

def push (l : Layout α) (v : α) : Layout α :=
  { l with now := ⟨l.frontier + 1, (l.frontier, v) :: l.now.cells⟩ }

def save (l : Layout α) : Layout α := { l with saved := some l.now }

def forget (l : Layout α) : Layout α := { l with saved := none }

end Layout

namespace Stack
variable [BEq α]

def sheet (s : Stack α) : Sheet α := ⟨s.top, s.positions.map fun i => (i, s.slot i)⟩

def layout (s : Stack α) : Layout α where
  capacity := s.capacity
  null := s.null
  now := s.sheet
  saved := s.snapshot.map fun p => (s.rollback p).sheet

@[simp] theorem elements_sheet (s : Stack α) : s.sheet.elements = s.toList := by
  simp [Sheet.elements, sheet, toList]

theorem elements_layout (s : Stack α) : s.layout.now.elements = s.toList := elements_sheet s

theorem frontier_layout (s : Stack α) : s.layout.frontier = s.frontier := by
  cases hs : s.snapshot <;> simp [Layout.frontier, layout, hs, frontier, sheet, rollback]

theorem saved_layout_eq_none {s : Stack α} : s.layout.saved = none ↔ s.snapshot = none := by
  simp [layout]

/-- A sheet depends on the top and on what lies below it. -/
theorem sheet_congr {s t : Stack α} (htop : s.top = t.top)
    (hv : ∀ i, i < s.top → s.vacant i = t.vacant i)
    (hs : ∀ i, i < s.top → s.vacant i = false → s.slot i = t.slot i) : s.sheet = t.sheet := by
  have hpos : s.positions = t.positions := by
    rw [positions, positions, ← htop]
    exact positionsBelow_congr hv
  have hcells : (s.positions.map fun i => (i, s.slot i)) =
      t.positions.map fun i => (i, t.slot i) := by
    rw [← hpos]
    refine List.map_congr_left fun i hi => ?_
    obtain ⟨hlt, hvac⟩ := mem_positionsBelow_iff.mp hi
    rw [hs i hlt hvac]
  rw [sheet, sheet, htop, hcells]

/-- What a restore goes back to depends on the slots below the save alone. -/
theorem sheet_rollback_congr {s t : Stack α} {p q : Snapshot} (hsave : p.save = q.save)
    (hnull : s.null = t.null) (hslot : ∀ i, i < p.save → s.slot i = t.slot i) :
    (s.rollback p).sheet = (t.rollback q).sheet := by
  refine sheet_congr hsave (fun i hi => ?_) fun i hi _ => hslot i hi
  have hi' : s.slot i = t.slot i := hslot i hi
  change (s.slot i == s.null) = (t.slot i == t.null)
  rw [hi', hnull]

theorem tombstonesBelow_rollback_congr {s t : Stack α} {p q : Snapshot} {n : Nat}
    (hnull : s.null = t.null) (hslot : ∀ i, i < n → s.slot i = t.slot i) :
    (s.rollback p).tombstonesBelow n = (t.rollback q).tombstonesBelow n := by
  refine tombstonesBelow_congr (fun _ _ => rfl) fun i hi => ?_
  change (s.slot i == s.null) = (t.slot i == t.null)
  rw [hslot i hi, hnull]

/-! ### The empty stack -/

theorem wellFormed_reset (s : Stack α) : s.reset.WellFormed where
  top_le := Nat.zero_le _
  dead_eq := rfl
  fits := by intro p hp; cases hp

theorem wellFormed_ofSlots (slots : Array α) (null : α) : (ofSlots slots null).WellFormed :=
  wellFormed_reset (ofSlots slots null)

end Stack
end Narrative
