import Mathlib
import Narrative.Proofs.Context.Sound
import Narrative.Proofs.Stack.Retained
import Narrative.Proofs.StringTable.Slots

/-! A collection frees just the texts that nothing refers to any more: neither a value on one of the
stacks, nor one that a restore of that stack would put back, nor a mark from before. -/
namespace Narrative
namespace Context
open Stack
variable {c : Context} {id : StringId}

def walked (c : Context) : List Value := c.calls.live.map Entry.value ++ c.eval.live

/-- A value on the evaluation stack or in an entry of the call stack refers to the string, now or
after the restore of that stack. -/
def Retains (c : Context) (id : StringId) : Prop :=
  c.eval.Retains (.str id) ∨ ∃ e : Entry, c.calls.Retains e ∧ e.value = .str id

theorem collectGarbage_eq (c : Context) (t : StringTable) :
    c.collectGarbage t = (t.markAll c.walked).sweep := by
  simp [collectGarbage, walked, StringTable.markAll, CallStack.markIn, EvalStack.markIn,
    List.foldl_append, List.foldl_map]

theorem beq_null_of_str {e : Entry} (he : e.value = .str id) : (e == Entry.null) = false := by
  obtain ⟨name, value⟩ := e
  subst he
  exact Bool.and_false _

theorem mem_walked {config : Config} (hc : c.Sound config) : .str id ∈ c.walked ↔ c.Retains id := by
  rw [walked, List.mem_append, List.mem_map, Retains, or_comm]
  refine or_congr ?_ (exists_congr fun e => and_congr_left fun he => ?_)
  · refine mem_live_iff_retains hc.eval.wellFormed ?_
    rw [hc.eval.null_eq]
    rfl
  · refine mem_live_iff_retains hc.calls.wellFramed.wellFormed ?_
    rw [hc.calls.wellFramed.null_eq]
    exact beq_null_of_str he

/-- What is left of a table by a collection that freed so many texts. -/
structure CollectedExactly (c : Context) (t : StringTable) (n : Nat) (after : StringTable) :
    Prop where
  live_iff : ∀ id, after.IsLive id ↔ t.IsLive id ∧ (t.IsMarked id ∨ c.Retains id)
  text_eq : ∀ id text, after.get? id = some text → t.get? id = some text
  unmarked : ∀ i cell, after.cellAt i = some cell → cell.marked = false
  slots_freed : ∃ slots : List Nat, slots.Nodup ∧ slots.length = n ∧
    ∀ i, i ∈ slots ↔ (∃ cell, t.cellAt i = some cell) ∧ after.cellAt i = none
  /-- The handles that no longer lead to a text, in a table that has no more slots than there are handles.
  Past that two slots share one, and `n` counts both. -/
  ids_freed : t.slots.size ≤ UInt32.size → ∃ ids : List StringId, ids.Nodup ∧ ids.length = n ∧
    ∀ id, id ∈ ids ↔ t.IsLive id ∧ ¬ after.IsLive id

section Collect
variable {config : Config} (hc : c.Sound config) (t : StringTable)
include hc

theorem cellAt_collectGarbage {cell : StringCell} :
    (c.collectGarbage t).2.cellAt id.index.toNat = some cell ↔
      ∃ b, t.cell? id = some b ∧ (b.marked = true ∨ c.Retains id) ∧
        cell = { b with marked := false } := by
  have hany : c.walked.any (·.refersTo id.index.toNat) = true ↔ c.Retains id := by
    simp [Value.refersTo_iff, mem_walked hc]
  rw [collectGarbage_eq, StringTable.cellAt_sweep_markAll, hany]
  rfl

theorem isLive_collectGarbage (id : StringId) :
    (c.collectGarbage t).2.IsLive id ↔ t.IsLive id ∧ (t.IsMarked id ∨ c.Retains id) := by
  rw [StringTable.isLive_iff, StringTable.isLive_iff, ← StringTable.cell?_eq, StringTable.IsMarked]
  constructor
  · rintro ⟨cell, hcell⟩
    obtain ⟨b, hb, hkept, -⟩ := (cellAt_collectGarbage hc t).mp hcell
    exact ⟨⟨b, hb⟩, hkept.imp (fun hm => ⟨b, hb, hm⟩) fun hr => hr⟩
  · rintro ⟨⟨b, hb⟩, hkept⟩
    refine ⟨_, (cellAt_collectGarbage hc t).mpr ⟨b, hb, hkept.imp ?_ fun hr => hr, rfl⟩⟩
    rintro ⟨b', hb', hm⟩
    obtain rfl := Option.some.inj (hb.symm.trans hb')
    exact hm

theorem get?_collectGarbage {id : StringId} {text : String}
    (h : (c.collectGarbage t).2.get? id = some text) : t.get? id = some text := by
  obtain ⟨cell, hcell, rfl⟩ := Option.map_eq_some_iff.mp h
  obtain ⟨b, hb, -, rfl⟩ := (cellAt_collectGarbage hc t).mp hcell
  exact Option.map_eq_some_iff.mpr ⟨b, hb, rfl⟩

omit hc in
theorem slots_freed (c : Context) (t : StringTable) :
    ∃ slots : List Nat, slots.Nodup ∧ slots.length = (c.collectGarbage t).1 ∧
      ∀ i, i ∈ slots ↔
        (∃ cell, t.cellAt i = some cell) ∧ (c.collectGarbage t).2.cellAt i = none := by
  rw [collectGarbage_eq]
  refine ⟨(t.markAll c.walked).garbage, StringTable.nodup_garbage _, rfl, fun i => ?_⟩
  rw [StringTable.mem_garbage_iff_freed, StringTable.exists_cellAt_markAll]

omit hc in
theorem ids_freed (c : Context) (t : StringTable) (hsize : t.slots.size ≤ UInt32.size) :
    ∃ ids : List StringId, ids.Nodup ∧ ids.length = (c.collectGarbage t).1 ∧
      ∀ id, id ∈ ids ↔ t.IsLive id ∧ ¬ (c.collectGarbage t).2.IsLive id := by
  obtain ⟨slots, hnodup, hlength, hmem⟩ := slots_freed c t
  have hlt : ∀ i ∈ slots, i < UInt32.size := by
    intro i hi
    obtain ⟨⟨cell, hcell⟩, -⟩ := (hmem i).mp hi
    exact Nat.lt_of_lt_of_le (t.lt_size_of_cellAt hcell) hsize
  refine ⟨slots.map StringId.ofIndex, StringTable.nodup_map_ofIndex hlt hnodup, ?_, fun id => ?_⟩
  · rw [List.length_map, hlength]
  · rw [StringTable.mem_map_ofIndex hlt, hmem, StringTable.isLive_iff, StringTable.isLive_iff,
      ← Option.eq_none_iff_forall_ne_some.trans not_exists.symm]

theorem collectedExactly :
    c.CollectedExactly t (c.collectGarbage t).1 (c.collectGarbage t).2 where
  live_iff := isLive_collectGarbage hc t
  text_eq _ _ h := get?_collectGarbage hc t h
  unmarked i cell h := by
    rw [collectGarbage_eq] at h
    obtain ⟨b, -, -, rfl⟩ := (StringTable.cellAt_sweep_markAll t).mp h
    rfl
  slots_freed := slots_freed c t
  ids_freed := ids_freed c t

end Collect

/-- After any history of the stacks and whatever was marked before, a collection frees a string if
and only if nothing refers to it. -/
theorem collectGarbage_exact {config : Config} {start : Context}
    (hstart : ofConfig config = .ok start) (ops : List Op) (t : StringTable) :
    let c := (attempts Op.perform ops start).2
    c.CollectedExactly t (c.collectGarbage t).1 (c.collectGarbage t).2 :=
  collectedExactly (sound_attempts hstart ops) t

/-- Of the strings on the evaluation stack one is popped while it is saved, pushed past and so
forgotten; of those in a variable one is hidden by a set that can still be undone. -/
def commitOverString : List Op :=
  [.eval (.push (.str ⟨0⟩)), .eval (.push (.str ⟨1⟩)), .eval (.control .save), .eval .pop,
    .eval (.push (.int 5)), .eval (.control .forget), .calls (.set ⟨7⟩ (.str ⟨2⟩)),
    .calls (.control .save), .calls (.set ⟨7⟩ (.int 6))]

def fiveTexts : StringTable where
  slots := #[some ⟨"on the stack", false⟩, some ⟨"forgotten", false⟩, some ⟨"restorable", false⟩,
    some ⟨"marked", true⟩, some ⟨"never used", false⟩]

def textsLeft : StringTable where
  slots := #[some ⟨"on the stack", false⟩, none, some ⟨"restorable", false⟩,
    some ⟨"marked", false⟩, none]
  free := [⟨4⟩, ⟨1⟩]

theorem collectGarbage_commitOverString :
    ∃ start, ofConfig { call := 2, eval := 3, container := 1 } = .ok start ∧
      (attempts Op.perform commitOverString start).2.CollectedExactly fiveTexts 2 textsLeft := by
  obtain ⟨start, hstart, hmade⟩ :
      ∃ start, ofConfig { call := 2, eval := 3, container := 1 } = .ok start ∧ start =
        ⟨CallStack.ofCapacity 2, EvalStack.ofCapacity 3, Stack.ofCapacity 1 ContainerId.none⟩ :=
    ⟨_, rfl, rfl⟩
  have hswept : (attempts Op.perform commitOverString start).2.collectGarbage fiveTexts =
      (2, textsLeft) := by
    rw [hmade]
    cbv
  have h := collectGarbage_exact hstart commitOverString fiveTexts
  simp only [hswept] at h
  exact ⟨start, hstart, h⟩

/-! ### More texts than handles -/

/-- The handle leads to a text before the collection and to none after it. -/
def Dies (c : Context) (t : StringTable) (id : StringId) : Prop :=
  t.IsLive id ∧ ¬ (c.collectGarbage t).2.IsLive id

def idle : Context :=
  ⟨CallStack.ofCapacity 1, EvalStack.ofCapacity 1, Stack.ofCapacity 1 ContainerId.none⟩

def creates (n : Nat) : List StringTable.Op := List.replicate n (.create "")

section Creates
variable (n : Nat)

theorem cellAt_after_creates (i : Nat) :
    (StringTable.after (creates n)).cellAt i = if i < n then some ⟨"", false⟩ else none := by
  rw [StringTable.cellAt, creates, StringTable.after_creates]
  by_cases h : i < n <;> simp [h]

theorem idle_collectGarbage_creates :
    (idle.collectGarbage (StringTable.after (creates n))).1 = n := by
  have hall : (StringTable.after (creates n)).garbage = List.range n := by
    rw [creates, StringTable.after_creates, StringTable.garbage, Array.size_replicate,
      List.filter_eq_self]
    intro i hi
    simp [List.mem_range.mp hi]
  -- an idle context holds no value to walk over, so the sweep finds every text unmarked
  change (StringTable.after (creates n)).garbage.length = n
  rw [hall, List.length_range]

theorem dies_creates_iff (id : StringId) :
    Dies idle (StringTable.after (creates n)) id ↔ id.index.toNat < n := by
  have hgone : ¬ (idle.collectGarbage (StringTable.after (creates n))).2.IsLive id := by
    change ¬ (StringTable.after (creates n)).sweep.2.IsLive id
    rw [StringTable.isLive_iff, StringTable.cellAt_sweep, cellAt_after_creates]
    split <;> simp [StringCell.survive]
  rw [Dies, and_iff_left hgone, StringTable.isLive_iff, cellAt_after_creates]
  by_cases h : id.index.toNat < n <;> simp [h]

/-- There are only so many handles that can die, while the number counts every slot. -/
theorem counts_dies_creates :
    StringTable.Counts (min n UInt32.size) (Dies idle (StringTable.after (creates n))) := by
  have hlt : ∀ i ∈ List.range (min n UInt32.size), i < UInt32.size := fun i hi =>
    Nat.lt_of_lt_of_le (List.mem_range.mp hi) (Nat.min_le_right n UInt32.size)
  refine ⟨(List.range (min n UInt32.size)).map StringId.ofIndex,
    StringTable.nodup_map_ofIndex hlt List.nodup_range, by simp, fun id => ?_⟩
  have hword : id.index.toNat < UInt32.size := id.index.toNat_lt_size
  rw [StringTable.mem_map_ofIndex hlt, List.mem_range, dies_creates_iff, Nat.lt_min,
    and_iff_left hword]

end Creates

/-- With one text more than there are handles, the first and the last of them share one. They are
counted as two, but that handle dies once. -/
theorem collectGarbage_creates_too_many :
    let t := StringTable.after (creates (UInt32.size + 1))
    ofConfig ⟨1, 1, 1⟩ = .ok idle ∧ (idle.collectGarbage t).1 = UInt32.size + 1 ∧
    StringTable.Counts UInt32.size (Dies idle t) ∧
    ¬ StringTable.Counts (idle.collectGarbage t).1 (Dies idle t) := by
  intro t
  have hnumber : (idle.collectGarbage t).1 = UInt32.size + 1 := idle_collectGarbage_creates _
  have hdead : StringTable.Counts UInt32.size (Dies idle t) := by
    have hmin := counts_dies_creates (UInt32.size + 1)
    rwa [Nat.min_eq_right (Nat.le_succ UInt32.size)] at hmin
  refine ⟨rfl, hnumber, hdead, fun hcounts => ?_⟩
  rw [hnumber] at hcounts
  exact Nat.succ_ne_self UInt32.size (hcounts.unique hdead)

end Context
end Narrative
