import Mathlib.Data.List.Nodup
import Narrative.Value

/-! Marking and sweeping slot by slot: a pass of marks changes nothing but the marks of the texts that
some value refers to, and a sweep keeps just the marked texts. -/
namespace Narrative

/-- The value is a string in that slot. -/
def Value.refersTo (i : Nat) : Value → Bool
  | .str id => id.index.toNat == i
  | _ => false

theorem Value.refersTo_iff {v : Value} {id : StringId} :
    v.refersTo id.index.toNat = true ↔ v = .str id := by
  cases v with
  | str id' =>
    have hindex : id'.index.toNat = id.index.toNat ↔ id' = id := by
      rw [UInt32.toNat_inj]
      exact ⟨fun h => congrArg StringId.mk h, congrArg StringId.index⟩
    simpa [refersTo] using hindex
  | none | int | float | bool | divert | frame => simp [refersTo]

namespace StringTable

/-- The text of a slot with its mark, if the slot is not empty. -/
def cellAt (t : StringTable) (i : Nat) : Option StringCell := t.slots[i]?.join

def IsLive (t : StringTable) (id : StringId) : Prop := (t.get? id).isSome = true

def IsMarked (t : StringTable) (id : StringId) : Prop :=
  ∃ c, t.cell? id = some c ∧ c.marked = true

def markAll (t : StringTable) (vs : List Value) : StringTable := vs.foldl (fun t v => v.markIn t) t

variable (t : StringTable)

theorem cell?_eq (id : StringId) : t.cell? id = t.cellAt id.index.toNat := rfl

theorem isLive_iff (id : StringId) : t.IsLive id ↔ ∃ c, t.cellAt id.index.toNat = some c := by
  rw [IsLive, get?, Option.isSome_map, Option.isSome_iff_exists, cell?_eq]

theorem lt_size_of_cellAt {i : Nat} {c : StringCell} (h : t.cellAt i = some c) :
    i < t.slots.size := by
  refine Nat.lt_of_not_le fun hi => ?_
  rw [cellAt, Array.getElem?_eq_none hi] at h
  cases h

/-! ### Marks -/

theorem cellAt_mark (id : StringId) (i : Nat) :
    (t.mark id).cellAt i =
      (t.cellAt i).map fun c => { c with marked := c.marked || id.index.toNat == i } := by
  rw [cellAt, cellAt, mark, Array.getElem?_modify]
  by_cases hi : id.index.toNat = i
  · rw [if_pos hi, Option.join_map_eq_map_join]
    simp [hi]
  · have hne : (id.index.toNat == i) = false := beq_false_of_ne hi
    simp [hi, hne]

theorem cellAt_markIn (v : Value) (i : Nat) :
    (v.markIn t).cellAt i =
      (t.cellAt i).map fun c => { c with marked := c.marked || v.refersTo i } := by
  cases v with
  | str id => exact t.cellAt_mark id i
  | none | int | float | bool | divert | frame => simp [Value.markIn, Value.refersTo]

theorem cellAt_markAll (vs : List Value) (i : Nat) :
    (t.markAll vs).cellAt i =
      (t.cellAt i).map fun c => { c with marked := c.marked || vs.any (·.refersTo i) } := by
  induction vs generalizing t with
  | nil => simp [markAll]
  | cons v vs ih =>
    have hrest := ih (v.markIn t)
    rw [cellAt_markIn, Option.map_map] at hrest
    refine hrest.trans (congrArg (Option.map · (t.cellAt i)) (funext fun c => ?_))
    simp [Bool.or_assoc]

theorem text_cellAt_markAll (vs : List Value) (i : Nat) :
    ((t.markAll vs).cellAt i).map StringCell.text = (t.cellAt i).map StringCell.text := by
  rw [cellAt_markAll, Option.map_map]
  rfl

theorem exists_cellAt_markAll {vs : List Value} {i : Nat} :
    (∃ c, (t.markAll vs).cellAt i = some c) ↔ ∃ c, t.cellAt i = some c := by
  simp [cellAt_markAll, Option.map_eq_some_iff, exists_comm]

/-! ### A sweep -/

theorem cellAt_sweep (i : Nat) : (t.sweep.2).cellAt i = (t.cellAt i).bind StringCell.survive := by
  rw [cellAt, cellAt, sweep, Array.getElem?_map]
  cases t.slots[i]? <;> rfl

theorem cellAt_sweep_eq_some {i : Nat} {c : StringCell} :
    (t.sweep.2).cellAt i = some c ↔
      ∃ b, t.cellAt i = some b ∧ b.marked = true ∧ c = { b with marked := false } := by
  rw [cellAt_sweep, Option.bind_eq_some_iff]
  refine exists_congr fun b => and_congr_right fun _ => ?_
  cases hb : b.marked <;> simp [StringCell.survive, hb, eq_comm]

/-- After a pass of marks a sweep leaves the texts that were marked before or in it. -/
theorem cellAt_sweep_markAll {vs : List Value} {i : Nat} {c : StringCell} :
    ((t.markAll vs).sweep.2).cellAt i = some c ↔
      ∃ b, t.cellAt i = some b ∧ (b.marked = true ∨ vs.any (·.refersTo i) = true) ∧
        c = { b with marked := false } := by
  rw [cellAt_sweep_eq_some, cellAt_markAll]
  constructor
  · rintro ⟨b, hb, hmarked, rfl⟩
    obtain ⟨a, ha, rfl⟩ := Option.map_eq_some_iff.mp hb
    exact ⟨a, ha, Bool.or_eq_true_iff.mp hmarked, rfl⟩
  · rintro ⟨a, ha, hmarked, rfl⟩
    exact ⟨_, Option.map_eq_some_iff.mpr ⟨a, ha, rfl⟩, Bool.or_eq_true_iff.mpr hmarked, rfl⟩

theorem mem_garbage {i : Nat} : i ∈ t.garbage ↔ ∃ c, t.cellAt i = some c ∧ c.marked = false := by
  rw [garbage, List.mem_filter, List.mem_range, cellAt]
  rcases h : t.slots[i]? with - | - | c
  · simp
  · simp
  · have hi := t.lt_size_of_cellAt (i := i) (c := c) (by rw [cellAt, h]; rfl)
    simp [hi]

theorem nodup_garbage : t.garbage.Nodup := List.nodup_range.filter _

/-- The garbage is what a sweep takes away. -/
theorem mem_garbage_iff_freed {i : Nat} :
    i ∈ t.garbage ↔ (∃ c, t.cellAt i = some c) ∧ (t.sweep.2).cellAt i = none := by
  rw [mem_garbage, cellAt_sweep]
  cases t.cellAt i with
  | none => simp
  | some c => cases hc : c.marked <;> simp [StringCell.survive, hc]

/-! ### Handles of the slots freed -/

theorem toNat_ofIndex {i : Nat} (h : i < UInt32.size) : (StringId.ofIndex i).index.toNat = i :=
  UInt32.toNat_ofNat_of_lt' h

theorem ofIndex_toNat (id : StringId) : StringId.ofIndex id.index.toNat = id := by
  rw [StringId.ofIndex, UInt32.ofNat_toNat]

section Handles
variable {slots : List Nat} (h : ∀ i ∈ slots, i < UInt32.size)
include h

theorem mem_map_ofIndex {id : StringId} :
    id ∈ slots.map StringId.ofIndex ↔ id.index.toNat ∈ slots := by
  rw [List.mem_map]
  constructor
  · rintro ⟨i, hi, rfl⟩
    rwa [toNat_ofIndex (h i hi)]
  · exact fun hid => ⟨_, hid, ofIndex_toNat id⟩

theorem nodup_map_ofIndex (hnodup : slots.Nodup) : (slots.map StringId.ofIndex).Nodup := by
  refine List.Nodup.map_on (fun i hi j hj hij => ?_) hnodup
  rw [← toNat_ofIndex (h i hi), hij, toNat_ofIndex (h j hj)]

end Handles

end StringTable
end Narrative
