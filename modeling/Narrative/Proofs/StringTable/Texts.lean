import Narrative.Proofs.StringTable.Handles
import Narrative.StringTable.Op

/-! A table of strings against a partial map from handles to texts and marks. They go through every run
together: a new text gets a handle that was not live, a mark touches the text of its handle alone, and
a sweep takes away just the unmarked texts. Meanwhile the free list names the empty slots. -/
namespace Narrative
namespace StringTable

/-- The handles of live texts, each with its text and its mark. -/
abbrev Texts := StringId → Option StringCell

/-- So many handles have the property. -/
def Counts (n : Nat) (P : StringId → Prop) : Prop :=
  ∃ ids : List StringId, ids.Nodup ∧ ids.length = n ∧ ∀ id, id ∈ ids ↔ P id

namespace Texts

/-- What an operation may answer, and the map it leaves. Which handle a new text gets is for the table
to choose. -/
def Allows (m : Texts) : Op → Answer → Texts → Prop
  | .create text, answer, m' =>
    ∃ id, answer = .created id ∧ m id = none ∧ m' = Function.update m id (some ⟨text, false⟩)
  | .get id, answer, m' => answer = .text ((m id).map StringCell.text) ∧ m' = m
  | .mark id, answer, m' =>
    answer = .done ∧ m' = Function.update m id ((m id).map fun c => { c with marked := true })
  | .sweep, answer, m' =>
    (∃ n, answer = .count n ∧ Counts n fun id => ∃ c, m id = some c ∧ c.marked = false) ∧
      m' = fun id => ((m id).filter StringCell.marked).map fun c => { c with marked := false }
  | .size, answer, m' => (∃ n, answer = .count n ∧ Counts n fun id => ∃ c, m id = some c) ∧ m' = m
  | .isEmpty, answer, m' => (∃ b, answer = .flag b ∧ (b = true ↔ ∀ id, m id = none)) ∧ m' = m

/-- The map goes through operations with these answers. -/
def GoesThrough : Texts → List Op → List Answer → Texts → Prop
  | m, [], [], m' => m' = m
  | m, op :: ops, answer :: answers, m' =>
    ∃ m₁, m.Allows op answer m₁ ∧ GoesThrough m₁ ops answers m'
  | _, _, _, _ => False

end Texts

variable {t : StringTable}

/-! ### The slots counted -/

def occupied (t : StringTable) : List Nat :=
  (List.range t.slots.size).filter fun i => (t.cellAt i).isSome

def vacated (t : StringTable) : List Nat :=
  (List.range t.slots.size).filter fun i => !(t.cellAt i).isSome

theorem mem_occupied {i : Nat} : i ∈ t.occupied ↔ ∃ c, t.cellAt i = some c := by
  rw [occupied, List.mem_filter, List.mem_range, Option.isSome_iff_exists]
  constructor
  · exact fun h => h.2
  · rintro ⟨c, hc⟩
    exact ⟨t.lt_size_of_cellAt hc, c, hc⟩

theorem mem_vacated {i : Nat} : i ∈ t.vacated ↔ t.slots[i]? = some none := by
  rw [vacated, List.mem_filter, List.mem_range, cellAt]
  constructor
  · rintro ⟨hlt, hnone⟩
    rw [Array.getElem?_eq_getElem hlt] at hnone ⊢
    simpa using hnone
  · intro h
    obtain ⟨hlt, -⟩ := Array.getElem?_eq_some_iff.mp h
    exact ⟨hlt, by rw [h]; rfl⟩

theorem length_occupied_add_vacated (t : StringTable) :
    t.occupied.length + t.vacated.length = t.slots.size := by
  have h := (List.filter_append_perm (fun i => (t.cellAt i).isSome)
    (List.range t.slots.size)).length_eq
  rwa [List.length_append, List.length_range] at h

section WellFormed
variable (ht : t.WellFormed)
include ht

theorem length_free : t.free.length = t.vacated.length := by
  have hlt : ∀ i ∈ t.vacated, i < UInt32.size := by
    intro i hi
    obtain ⟨hi, -⟩ := Array.getElem?_eq_some_iff.mp (mem_vacated.mp hi)
    exact Nat.lt_of_lt_of_le hi ht.size_le
  have hperm : t.free.Perm (t.vacated.map StringId.ofIndex) := by
    refine (List.perm_ext_iff_of_nodup ht.nodup ?_).mpr fun id => ?_
    · exact nodup_map_ofIndex hlt (List.nodup_range.filter _)
    · rw [ht.mem_free, mem_map_ofIndex hlt, mem_vacated]
  rw [hperm.length_eq, List.length_map]

theorem size_eq_length_occupied : t.size = t.occupied.length := by
  have hslots := t.length_occupied_add_vacated
  rw [size, length_free ht]
  omega

theorem length_free_le : t.free.length ≤ t.slots.size := by
  have hslots := t.length_occupied_add_vacated
  rw [length_free ht]
  omega

theorem lt_size_of_mem_occupied : ∀ i ∈ t.occupied, i < UInt32.size := by
  intro i hi
  obtain ⟨c, hc⟩ := mem_occupied.mp hi
  exact Nat.lt_of_lt_of_le (t.lt_size_of_cellAt hc) ht.size_le

theorem counts_size : Counts t.size fun id => ∃ c, t.cell? id = some c := by
  have hlt := lt_size_of_mem_occupied ht
  refine ⟨t.occupied.map StringId.ofIndex, ?_, ?_, fun id => ?_⟩
  · exact nodup_map_ofIndex hlt (List.nodup_range.filter _)
  · rw [List.length_map, size_eq_length_occupied ht]
  · rw [mem_map_ofIndex hlt, mem_occupied]
    rfl

theorem isEmpty_iff : t.isEmpty = true ↔ ∀ id, t.cell? id = none := by
  obtain ⟨ids, -, hlength, hmem⟩ := counts_size ht
  rw [isEmpty, beq_iff_eq, ← hlength, List.length_eq_zero_iff, List.eq_nil_iff_forall_not_mem]
  refine forall_congr' fun id => ?_
  rw [hmem, Option.eq_none_iff_forall_ne_some, not_exists]

theorem counts_sweep : Counts t.sweep.1 fun id => ∃ c, t.cell? id = some c ∧ c.marked = false := by
  have hlt := lt_size_of_mem_garbage ht
  refine ⟨t.garbage.map StringId.ofIndex, nodup_map_ofIndex hlt t.nodup_garbage, ?_, fun id => ?_⟩
  · rw [List.length_map]
    rfl
  · rw [mem_map_ofIndex hlt, mem_garbage]
    rfl

end WellFormed

/-! ### What each operation does to the map -/

theorem cell?_mark (t : StringTable) (id : StringId) :
    (t.mark id).cell? =
      Function.update t.cell? id ((t.cell? id).map fun c => { c with marked := true }) := by
  funext other
  rw [cell?_eq, cellAt_mark]
  by_cases h : other = id
  · subst h
    simp [cell?_eq]
  · have hne : (id.index.toNat == other.index.toNat) = false :=
      beq_false_of_ne (index_ne (Ne.symm h))
    rw [Function.update_of_ne h, hne]
    simp [cell?_eq]

theorem cell?_sweep (t : StringTable) :
    t.sweep.2.cell? =
      fun id => ((t.cell? id).filter StringCell.marked).map fun c => { c with marked := false } := by
  funext id
  rw [cell?_eq, cellAt_sweep, cell?_eq]
  cases t.cellAt id.index.toNat with
  | none => rfl
  | some c => cases hc : c.marked <;> simp [StringCell.survive, Option.filter, hc]

theorem size_lt_of_create {text : String} (hroom : (t.create text).2.slots.size ≤ UInt32.size)
    (hfree : t.free = []) : t.slots.size < UInt32.size := by
  simp only [create, hfree, Array.size_push] at hroom
  exact hroom

section Create
variable (ht : t.WellFormed) (text : String)
include ht

/-- A new text takes a slot that was empty, or a new one whose handle no slot has. -/
theorem cell?_create (hroom : (t.create text).2.slots.size ≤ UInt32.size) :
    t.cell? (t.create text).1 = none ∧
      (t.create text).2.cell? = Function.update t.cell? (t.create text).1 (some ⟨text, false⟩) := by
  cases hfree : t.free with
  | nil =>
    simp only [create, hfree, Array.size_push] at hroom ⊢
    have hnew : (StringId.ofIndex t.slots.size).index.toNat = t.slots.size := toNat_ofIndex hroom
    refine ⟨?_, funext fun id => ?_⟩
    · rw [cell?, hnew, Array.getElem?_eq_none (Nat.le_refl _)]
      rfl
    · rw [cell?, Array.getElem?_push]
      by_cases hid : id = .ofIndex t.slots.size
      · rw [hid, hnew, if_pos rfl, Function.update_self]
        rfl
      · have hne : id.index.toNat ≠ t.slots.size := hnew ▸ index_ne hid
        rw [if_neg hne, Function.update_of_ne hid]
        rfl
  | cons new rest =>
    have hnew : t.slots[new.index.toNat]? = some none :=
      (ht.mem_free new).mp (by rw [hfree]; exact List.mem_cons_self)
    obtain ⟨hlt, -⟩ := Array.getElem?_eq_some_iff.mp hnew
    simp only [create, hfree]
    refine ⟨?_, funext fun id => ?_⟩
    · rw [cell?, hnew]
      rfl
    · by_cases hid : id = new
      · rw [hid, cell?, Array.getElem?_setIfInBounds_self_of_lt hlt, Function.update_self]
        rfl
      · rw [cell?, Array.getElem?_setIfInBounds_ne (Ne.symm (index_ne hid)),
          Function.update_of_ne hid]
        rfl

end Create

/-! ### Runs -/

theorem slots_size_le_perform (t : StringTable) (op : Op) :
    t.slots.size ≤ (op.perform t).2.slots.size := by
  cases op with
  | create text => cases hfree : t.free <;> simp [Op.perform, create, hfree]
  | mark id => simp [Op.perform, mark]
  | sweep => simp [Op.perform, sweep]
  | get | size | isEmpty => exact Nat.le_refl _

theorem slots_size_le_performAll (t : StringTable) (ops : List Op) :
    t.slots.size ≤ (performAll t ops).2.slots.size := by
  induction ops generalizing t with
  | nil => exact Nat.le_refl _
  | cons op ops ih => exact Nat.le_trans (slots_size_le_perform t op) (ih _)

section Step
variable (ht : t.WellFormed)
include ht

theorem wellFormed_perform {op : Op} (hroom : (op.perform t).2.slots.size ≤ UInt32.size) :
    (op.perform t).2.WellFormed := by
  cases op with
  | create text => exact wellFormed_create ht text (size_lt_of_create hroom)
  | mark id => exact wellFormed_mark ht id
  | sweep => exact wellFormed_sweep ht
  | get | size | isEmpty => exact ht

theorem perform_allowed {op : Op} (hroom : (op.perform t).2.slots.size ≤ UInt32.size) :
    Texts.Allows t.cell? op (op.perform t).1 (op.perform t).2.cell? := by
  cases op with
  | create text =>
    obtain ⟨hfresh, hcell⟩ := cell?_create ht text hroom
    exact ⟨_, rfl, hfresh, hcell⟩
  | get id => exact ⟨rfl, rfl⟩
  | mark id => exact ⟨rfl, cell?_mark t id⟩
  | sweep => exact ⟨⟨_, rfl, counts_sweep ht⟩, cell?_sweep t⟩
  | size => exact ⟨⟨_, rfl, counts_size ht⟩, rfl⟩
  | isEmpty => exact ⟨⟨_, rfl, isEmpty_iff ht⟩, rfl⟩

/-- Step by step, a table with room for the whole run goes along with the map. -/
theorem performAll_goesThrough {ops : List Op}
    (hroom : (performAll t ops).2.slots.size ≤ UInt32.size) :
    Texts.GoesThrough t.cell? ops (performAll t ops).1 (performAll t ops).2.cell? ∧
      (performAll t ops).2.WellFormed := by
  induction ops generalizing t with
  | nil => exact ⟨rfl, ht⟩
  | cons op ops ih =>
    have hstep : (op.perform t).2.slots.size ≤ UInt32.size :=
      Nat.le_trans (slots_size_le_performAll _ ops) hroom
    obtain ⟨hgoes, hwf⟩ := ih (wellFormed_perform ht hstep) hroom
    exact ⟨⟨_, perform_allowed ht hstep, hgoes⟩, hwf⟩

end Step

/-- A table of strings is a partial map from handles to marked texts, as long as there are handles for
its slots; its free list names the empty slots, each once, so the sizes add up. -/
theorem runs_follow_texts (ops : List Op)
    (hroom : (performAll empty ops).2.slots.size ≤ UInt32.size) :
    let t := (performAll empty ops).2
    Texts.GoesThrough (fun _ => none) ops (performAll empty ops).1 t.cell? ∧
      t.WellFormed ∧ t.size + t.free.length = t.slots.size ∧ Counts t.size t.IsLive := by
  intro t
  have hempty : empty.cell? = fun _ => none := rfl
  obtain ⟨hgoes, hwf⟩ := performAll_goesThrough wellFormed_empty hroom
  rw [hempty] at hgoes
  refine ⟨hgoes, hwf, ?_, ?_⟩
  · exact Nat.sub_add_cancel (length_free_le hwf)
  · have hcounts := counts_size hwf
    simp only [cell?_eq, ← isLive_iff] at hcounts
    exact hcounts

/-- The second of two texts is marked and survives a sweep, and the handle of the first one is given
out again; a handle that was never given out is marked in vain. -/
def recycle : List Op :=
  [.create "lost", .create "kept", .mark ⟨1⟩, .mark ⟨7⟩, .sweep, .size, .create "new", .get ⟨0⟩,
    .get ⟨7⟩, .sweep, .isEmpty]

theorem recycle_follows_texts :
    (performAll empty recycle).2.slots.size ≤ UInt32.size ∧
    Texts.GoesThrough (fun _ => none) recycle
      [.created ⟨0⟩, .created ⟨1⟩, .done, .done, .count 1, .count 1, .created ⟨0⟩,
        .text (some "new"), .text none, .count 2, .flag true]
      (StringTable.cell? ⟨#[none, none], [⟨1⟩, ⟨0⟩]⟩) := by
  have hrun : performAll empty recycle =
      ([.created ⟨0⟩, .created ⟨1⟩, .done, .done, .count 1, .count 1, .created ⟨0⟩,
        .text (some "new"), .text none, .count 2, .flag true],
        ⟨#[none, none], [⟨1⟩, ⟨0⟩]⟩) := by with_unfolding_all rfl
  have hroom : (performAll empty recycle).2.slots.size ≤ UInt32.size := by
    rw [hrun]
    decide
  obtain ⟨hgoes, -⟩ := runs_follow_texts recycle hroom
  rw [hrun] at hgoes
  exact ⟨hroom, hgoes⟩

end StringTable
end Narrative
