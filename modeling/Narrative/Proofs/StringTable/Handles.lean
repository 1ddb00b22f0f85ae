import Narrative.Proofs.StringTable.Collection

/-! Handles given out and taken back: the free list names the empty slots, each once, so a new text
never takes the slot of a live one. -/
namespace Narrative
namespace StringTable
variable {t : StringTable}

structure WellFormed (t : StringTable) : Prop where
  nodup : t.free.Nodup
  mem_free : ∀ id : StringId, id ∈ t.free ↔ t.slots[id.index.toNat]? = some none
  size_le : t.slots.size ≤ UInt32.size

theorem wellFormed_empty : empty.WellFormed where
  nodup := .nil
  mem_free _ := by simp [empty]
  size_le := Nat.zero_le _

theorem cellAt_eq_some {i : Nat} {c : StringCell} :
    t.cellAt i = some c ↔ t.slots[i]? = some (some c) := by
  rw [cellAt, Option.join_eq_some_iff]

/-- What a table says of a handle depends on its slot alone. -/
theorem get?_congr {t u : StringTable} {id : StringId}
    (h : (t.cellAt id.index.toNat).map StringCell.text =
      (u.cellAt id.index.toNat).map StringCell.text) : t.get? id = u.get? id := h

/-! ### A new text -/

theorem index_ne {a b : StringId} (h : a ≠ b) : a.index.toNat ≠ b.index.toNat := by
  intro hindex
  apply h
  rw [← ofIndex_toNat a, hindex, ofIndex_toNat]

section Create
variable (ht : t.WellFormed) (text : String)
include ht

theorem wellFormed_create (hsize : t.free = [] → t.slots.size < UInt32.size) :
    (t.create text).2.WellFormed := by
  cases hfree : t.free with
  | nil =>
    -- with nothing free no slot is empty, and the new one is not either
    have hnone : ∀ id : StringId, t.slots[id.index.toNat]? ≠ some none := fun id h => by
      have hmem := (ht.mem_free id).mpr h
      rw [hfree] at hmem
      cases hmem
    simp only [create, hfree]
    refine ⟨.nil, fun id => ?_, ?_⟩
    · rw [Array.getElem?_push]
      split <;> simp [hnone id]
    · rw [Array.size_push]
      exact hsize hfree
  | cons new rest =>
    have hnodup := ht.nodup
    rw [hfree] at hnodup
    obtain ⟨hnew, hrest⟩ := List.nodup_cons.mp hnodup
    simp only [create, hfree]
    refine ⟨hrest, fun id => ?_, by rw [Array.size_setIfInBounds]; exact ht.size_le⟩
    have hmem := ht.mem_free id
    rw [hfree, List.mem_cons] at hmem
    by_cases hid : id = new
    · subst hid
      have hlt : id.index.toNat < t.slots.size := by
        obtain ⟨hlt, -⟩ := Array.getElem?_eq_some_iff.mp (hmem.mp (.inl rfl))
        exact hlt
      simp [hnew, hlt]
    · rw [Array.getElem?_setIfInBounds_ne (Ne.symm (index_ne hid)), ← hmem]
      simp [hid]

/-- The slot of a live text is not given out again. -/
theorem get?_create {id : StringId} (hid : t.IsLive id) : (t.create text).2.get? id = t.get? id := by
  obtain ⟨c, hc⟩ := (t.isLive_iff id).mp hid
  have hlt := t.lt_size_of_cellAt hc
  have hslot := cellAt_eq_some.mp hc
  refine get?_congr (congrArg _ ?_)
  cases hfree : t.free with
  | nil =>
    simp only [create, hfree, cellAt]
    rw [Array.getElem?_push_lt hlt, Array.getElem?_eq_getElem hlt]
  | cons new rest =>
    have hne : id ≠ new := by
      rintro rfl
      have hnone := (ht.mem_free id).mp (by rw [hfree]; exact List.mem_cons_self)
      rw [hslot] at hnone
      cases hnone
    simp only [create, hfree, cellAt]
    rw [Array.getElem?_setIfInBounds_ne (Ne.symm (index_ne hne))]

end Create

/-! ### Marks and sweeps -/

theorem wellFormed_mark (ht : t.WellFormed) (id : StringId) : (t.mark id).WellFormed where
  nodup := ht.nodup
  mem_free other := by
    rw [mark, Array.getElem?_modify, ht.mem_free]
    split
    · simp [Option.map_eq_some_iff]
    · rfl
  size_le := by rw [mark, Array.size_modify]; exact ht.size_le

theorem wellFormed_markIn (ht : t.WellFormed) (v : Value) : (v.markIn t).WellFormed := by
  cases v with
  | str id => exact wellFormed_mark ht id
  | none | int | float | bool | divert | frame => exact ht

theorem wellFormed_markAll (ht : t.WellFormed) (vs : List Value) : (t.markAll vs).WellFormed := by
  induction vs generalizing t with
  | nil => exact ht
  | cons v vs ih => exact ih (wellFormed_markIn ht v)

theorem lt_size_of_mem_garbage (ht : t.WellFormed) : ∀ i ∈ t.garbage, i < UInt32.size := by
  intro i hi
  obtain ⟨c, hc, -⟩ := t.mem_garbage.mp hi
  exact Nat.lt_of_lt_of_le (t.lt_size_of_cellAt hc) ht.size_le

/-- The slots that a sweep empties were not empty, so their handles join a free list without them. -/
theorem wellFormed_sweep (ht : t.WellFormed) : t.sweep.2.WellFormed := by
  have hlt := lt_size_of_mem_garbage ht
  refine ⟨?_, fun id => ?_, ?_⟩
  · refine List.nodup_append.mpr ⟨?_, ht.nodup, ?_⟩
    · exact List.nodup_reverse.mpr (nodup_map_ofIndex hlt t.nodup_garbage)
    · rintro id hid _ hfree rfl
      obtain ⟨c, hc, -⟩ := t.mem_garbage.mp ((mem_map_ofIndex hlt).mp (List.mem_reverse.mp hid))
      have hslot := (ht.mem_free id).mp hfree
      rw [cellAt_eq_some.mp hc] at hslot
      cases hslot
  · change id ∈ (t.garbage.map StringId.ofIndex).reverse ++ t.free ↔
      (t.slots.map (·.bind StringCell.survive))[id.index.toNat]? = some none
    rw [List.mem_append, List.mem_reverse, mem_map_ofIndex hlt, mem_garbage, ht.mem_free,
      Array.getElem?_map, cellAt]
    rcases t.slots[id.index.toNat]? with - | - | c
    · simp
    · simp
    · cases hc : c.marked <;> simp [StringCell.survive, hc]
  · rw [sweep, Array.size_map]
    exact ht.size_le

end StringTable
end Narrative
