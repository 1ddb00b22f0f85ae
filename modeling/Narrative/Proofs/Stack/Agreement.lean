import Narrative.Proofs.Stack.Outcomes
import Narrative.Stack.Op

/-! Stacks that agree on everything but the slots at and above the frontier. No operation tells them
apart, and they go on agreeing. -/
namespace Narrative
namespace Stack
variable {α : Type}

structure Agree (s t : Stack α) : Prop where
  size_eq : s.slots.size = t.slots.size
  null_eq : s.null = t.null
  top_eq : s.top = t.top
  dead_eq : s.dead = t.dead
  snapshot_eq : s.snapshot = t.snapshot
  slot_eq : ∀ i, i < s.frontier → s.slot i = t.slot i

theorem Agree.refl (s : Stack α) : s.Agree s := ⟨rfl, rfl, rfl, rfl, rfl, fun _ _ => rfl⟩

section Agree
variable {s t u : Stack α}

theorem Agree.frontier (h : s.Agree t) : s.frontier = t.frontier := by
  rw [Stack.frontier, Stack.frontier, h.snapshot_eq, h.top_eq]

theorem Agree.symm (h : s.Agree t) : t.Agree s :=
  ⟨h.size_eq.symm, h.null_eq.symm, h.top_eq.symm, h.dead_eq.symm, h.snapshot_eq.symm,
    fun i hi => (h.slot_eq i (h.frontier ▸ hi)).symm⟩

theorem Agree.trans (h : s.Agree t) (h' : t.Agree u) : s.Agree u where
  size_eq := h.size_eq.trans h'.size_eq
  null_eq := h.null_eq.trans h'.null_eq
  top_eq := h.top_eq.trans h'.top_eq
  dead_eq := h.dead_eq.trans h'.dead_eq
  snapshot_eq := h.snapshot_eq.trans h'.snapshot_eq
  slot_eq i hi := (h.slot_eq i hi).trans (h'.slot_eq i (h.frontier ▸ hi))

theorem Agree.hasSnapshot (h : s.Agree t) : s.hasSnapshot = t.hasSnapshot := by
  rw [Stack.hasSnapshot, Stack.hasSnapshot, h.snapshot_eq]

theorem Agree.bypassed (h : s.Agree t) (i : Nat) : s.bypassed i = t.bypassed i := by
  rw [Stack.bypassed, Stack.bypassed, h.snapshot_eq]

theorem Agree.size (h : s.Agree t) : s.size = t.size := by
  rw [Stack.size, Stack.size, h.snapshot_eq, h.top_eq, h.dead_eq]

theorem Agree.rollback (h : s.Agree t) {p : Snapshot} (hp : s.snapshot = some p) :
    (s.rollback p).Agree (t.rollback p) where
  size_eq := h.size_eq
  null_eq := h.null_eq
  top_eq := rfl
  dead_eq := rfl
  snapshot_eq := rfl
  slot_eq i hi := h.slot_eq i (Nat.lt_of_lt_of_le hi (save_le_frontier hp))

theorem Agree.reset (h : s.Agree t) : s.reset.Agree t.reset :=
  ⟨h.size_eq, h.null_eq, rfl, rfl, rfl, fun i hi => absurd hi (Nat.not_lt_zero i)⟩

theorem Agree.marked (h : s.Agree t) (hsnap : s.snapshot = none) : s.marked.Agree t.marked := by
  have hfront : s.marked.frontier = s.frontier := by
    simp [Stack.frontier, Stack.marked, hsnap]
  refine ⟨h.size_eq, h.null_eq, h.top_eq, h.dead_eq, ?_, fun i hi => h.slot_eq i (hfront ▸ hi)⟩
  rw [Stack.marked, Stack.marked, h.top_eq, h.dead_eq]

theorem Agree.committed (h : s.Agree t) (p : Snapshot) : (s.committed p).Agree (t.committed p) := by
  refine ⟨by simp [Stack.committed, entomb, h.size_eq], h.null_eq, h.top_eq, ?_, rfl, ?_⟩
  · rw [Stack.committed, Stack.committed, h.top_eq, h.dead_eq]
  · intro i hi
    have hold := h.slot_eq i (Nat.lt_of_lt_of_le hi s.top_le_frontier)
    rw [slot_committed, slot_committed, h.null_eq, hold]

theorem Agree.relocated (h : s.Agree t) : s.relocated = t.relocated := by
  rw [Stack.relocated, Stack.relocated, h.snapshot_eq, h.top_eq]

theorem Agree.pushed (h : s.Agree t) (v : α) (hroom : s.frontier < s.capacity) :
    (s.pushed v).Agree (t.pushed v) := by
  have hroom' : t.frontier < t.capacity := by
    rw [← h.frontier, capacity, ← h.size_eq]
    exact hroom
  refine ⟨by simp [Stack.pushed, h.size_eq], h.null_eq, ?_, h.dead_eq, h.relocated, ?_⟩
  · rw [Stack.pushed, Stack.pushed, h.frontier]
  · intro i hi
    rw [frontier_pushed] at hi
    rcases Nat.lt_or_eq_of_le (Nat.le_of_lt_succ hi) with hlt | rfl
    · rw [slot_pushed_of_lt v hlt, slot_pushed_of_lt v (h.frontier ▸ hlt), h.slot_eq i hlt]
    · rw [slot_pushed_frontier v hroom, h.frontier, slot_pushed_frontier v hroom']

theorem Agree.popped (h : s.Agree t) (i k : Nat) (hi : i ≤ s.top) :
    (s.popped i k).Agree (t.popped i k) := by
  refine ⟨h.size_eq, h.null_eq, rfl, ?_, h.snapshot_eq, fun j hj => h.slot_eq j ?_⟩
  · rw [Stack.popped, Stack.popped, h.dead_eq]
  · -- a pop does not raise the frontier
    refine Nat.lt_of_lt_of_le hj ?_
    cases hp : s.snapshot with
    | none => simpa [Stack.frontier, Stack.popped, hp] using hi
    | some p =>
      simp only [Stack.frontier, Stack.popped, hp]
      omega

theorem Agree.live (h : s.Agree t) : s.live = t.live := by
  rw [live_eq, live_eq, ← h.frontier, capacity, capacity, ← h.size_eq]
  refine List.map_congr_left fun i hi => h.slot_eq i ?_
  exact Nat.lt_of_lt_of_le (List.mem_range.mp hi) (Nat.min_le_left _ _)

theorem Agree.getElem?_slots (h : s.Agree t) {i : Nat} (hi : i < s.frontier) :
    s.slots[i]? = t.slots[i]? := by
  have hsize := h.size_eq
  by_cases hlt : i < s.slots.size
  · have hlt' : i < t.slots.size := hsize ▸ hlt
    simpa [slot, hlt, hlt'] using h.slot_eq i hi
  · rw [Array.getElem?_eq_none (by omega), Array.getElem?_eq_none (by omega)]

/-! ### Reads -/

variable [BEq α]

theorem Agree.isNull (h : s.Agree t) {i : Nat} (hi : i < s.frontier) :
    (s.slot i == s.null) = (t.slot i == t.null) := by
  rw [h.slot_eq i hi, h.null_eq]

theorem Agree.seekBelow (h : s.Agree t) {n : Nat} (hn : n ≤ s.frontier) :
    s.seekBelow n = t.seekBelow n := by
  induction n with
  | zero => rfl
  | succ n ih =>
    simp only [Stack.seekBelow, h.bypassed n, h.isNull hn, ih (Nat.le_of_succ_le hn)]

theorem Agree.positions (h : s.Agree t) : s.positions = t.positions := by
  rw [Stack.positions, Stack.positions, ← h.top_eq]
  refine positionsBelow_congr fun i hi => ?_
  rw [vacant, vacant, h.bypassed, h.isNull (Nat.lt_of_lt_of_le hi s.top_le_frontier)]

theorem Agree.slot_of_mem (h : s.Agree t) {i : Nat} (hi : i ∈ s.positions) :
    s.slot i = t.slot i :=
  h.slot_eq i (Nat.lt_of_lt_of_le (mem_positionsBelow_iff.mp hi).1 s.top_le_frontier)

theorem Agree.toList (h : s.Agree t) : s.toList = t.toList := by
  rw [Stack.toList, Stack.toList, ← h.positions]
  exact List.map_congr_left fun i hi => h.slot_of_mem hi

theorem Agree.peek? (h : s.Agree t) : s.peek? = t.peek? := by
  rw [peek?_eq_head?, peek?_eq_head?, h.toList]

theorem Agree.step (h : s.Agree t) (c : Cursor) : s.step c = t.step c := by
  have hresume : s.resume c = t.resume c := by
    unfold resume reachable
    simp only [h.top_eq, h.bypassed]
  have hle := Nat.le_trans (resume_le_top s c) s.top_le_frontier
  have hbelow : s.below (s.resume c) = t.below (s.resume c) := by
    rw [below, below, h.seekBelow hle]
  rw [Stack.step, Stack.step, ← hresume, ← hbelow]
  cases hi : s.below (s.resume c) with
  | none => rfl
  | some i =>
    rw [below_eq_head?] at hi
    have hmem := List.mem_of_head? hi
    have hlt := (mem_positionsBelow_iff.mp hmem).1
    simp only [h.slot_eq i (Nat.lt_of_lt_of_le hlt hle)]

end Agree

/-! ### Operations -/

theorem respects_clear : Respects Agree (clear : StackM α Unit) := by
  intro s t h
  cases hs : s.hasSnapshot with
  | true =>
    rw [attempt_clear_saved hs, attempt_clear_saved (h.hasSnapshot ▸ hs)]
    exact ⟨rfl, h⟩
  | false =>
    rw [attempt_clear_unsaved hs, attempt_clear_unsaved (h.hasSnapshot ▸ hs)]
    exact ⟨rfl, h.reset⟩

theorem respects_save : Respects Agree (save : StackM α Unit) := by
  intro s t h
  cases hs : s.snapshot with
  | some p =>
    rw [attempt_save_saved hs, attempt_save_saved (h.snapshot_eq ▸ hs)]
    exact ⟨rfl, h⟩
  | none =>
    rw [attempt_save_unsaved hs, attempt_save_unsaved (h.snapshot_eq ▸ hs)]
    exact ⟨rfl, h.marked hs⟩

theorem respects_restore : Respects Agree (restore : StackM α Unit) := by
  intro s t h
  cases hs : s.snapshot with
  | none =>
    rw [attempt_restore_unsaved hs, attempt_restore_unsaved (h.snapshot_eq ▸ hs)]
    exact ⟨rfl, h⟩
  | some p =>
    rw [attempt_restore_saved hs, attempt_restore_saved (h.snapshot_eq ▸ hs)]
    exact ⟨rfl, h.rollback hs⟩

theorem respects_forget : Respects Agree (forget : StackM α Unit) := by
  intro s t h
  cases hs : s.snapshot with
  | none =>
    rw [attempt_forget_unsaved hs, attempt_forget_unsaved (h.snapshot_eq ▸ hs)]
    exact ⟨rfl, h⟩
  | some p =>
    rw [attempt_forget_saved hs, attempt_forget_saved (h.snapshot_eq ▸ hs)]
    exact ⟨rfl, h.committed p⟩

variable [BEq α]

theorem respects_push (v : α) : Respects Agree (push v) := by
  intro s t h
  have hcap : s.capacity = t.capacity := h.size_eq
  cases hv : (v == s.null) with
  | true =>
    rw [attempt_push_null hv, attempt_push_null (h.null_eq ▸ hv)]
    exact ⟨rfl, h⟩
  | false =>
    have hv' : (v == t.null) = false := h.null_eq ▸ hv
    by_cases hroom : s.frontier < s.capacity
    · rw [attempt_push_room hv hroom,
        attempt_push_room hv' (by rw [← hcap, ← h.frontier]; exact hroom)]
      exact ⟨rfl, h.pushed v hroom⟩
    · have hfull := Nat.le_of_not_lt hroom
      rw [attempt_push_full hv hfull,
        attempt_push_full hv' (by rw [← hcap, ← h.frontier]; exact hfull), hcap]
      exact ⟨rfl, h⟩

theorem respects_pop : Respects Agree (pop : StackM α α) := by
  intro s t h
  have hseek := h.seekBelow s.top_le_frontier
  cases hk : s.seekBelow s.top with
  | mk found k =>
    have hk' : t.seekBelow t.top = (found, k) := by
      rw [← h.top_eq, ← hseek, hk]
    cases found with
    | none =>
      rw [attempt_pop_none hk, attempt_pop_none hk']
      exact ⟨rfl, h⟩
    | some i =>
      have hmem : i ∈ s.positions := by
        rw [positions, (seekBelow_some hk).1]
        exact List.mem_cons_self
      have hlt := (mem_positionsBelow_iff.mp hmem).1
      rw [attempt_pop_some hk, attempt_pop_some hk', h.slot_of_mem hmem]
      exact ⟨rfl, h.popped i k (Nat.le_of_lt hlt)⟩

theorem respects_peek : Respects Agree (peek : StackM α α) := by
  intro s t h
  have hpeek := h.peek?
  cases hs : s.peek? with
  | none =>
    rw [attempt_peek_none hs, attempt_peek_none (hpeek.symm.trans hs)]
    exact ⟨rfl, h⟩
  | some v =>
    rw [attempt_peek_some hs, attempt_peek_some (hpeek.symm.trans hs)]
    exact ⟨rfl, h⟩

theorem respects_control (k : Control) : Respects Agree (k.perform : StackM α (Answer α)) := by
  cases k with
  | size => exact .query fun s t h => by rw [h.size]
  | isEmpty => exact .query fun s t h => by rw [isEmpty, isEmpty, h.size]
  | capacity => exact .query fun s t h => by rw [capacity, capacity, h.size_eq]
  | hasSnapshot => exact .query fun s t h => by rw [h.hasSnapshot]
  | toList => exact .query fun s t h => by rw [h.toList]
  | clear => exact respects_clear.bind fun _ => .pure _
  | reset => exact (Respects.change fun s t h => h.reset).bind fun _ => .pure _
  | save => exact respects_save.bind fun _ => .pure _
  | restore => exact respects_restore.bind fun _ => .pure _
  | forget => exact respects_forget.bind fun _ => .pure _

theorem respects_op (op : Op α) : Respects Agree op.perform := by
  cases op with
  | push v => exact (respects_push v).bind fun _ => .pure _
  | pop => exact respects_pop.bind fun _ => .pure _
  | peek => exact respects_peek.bind fun _ => .pure _
  | null => exact .query fun s t h => by rw [h.null_eq]
  | live => exact .query fun s t h => by rw [h.live]
  | step c => exact .query fun s t h => by rw [h.step]
  | control k => exact respects_control k

end Stack
end Narrative
