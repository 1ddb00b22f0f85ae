import Narrative.Proofs.History
import Narrative.Proofs.Stack.Region
import Narrative.Stack.Cursor

/-! What each operation answers and the stack it leaves, by the cases that it tells apart. -/
namespace Narrative
namespace Stack
variable {α : Type} {s : Stack α}

/-- The stack after a push that found room. -/
def pushed (s : Stack α) (v : α) : Stack α :=
  { s with
    slots := s.slots.setIfInBounds s.frontier v
    top := s.frontier + 1
    snapshot := s.relocated }

/-- The stack after a pop that found an element and passed so many tombstones. -/
def popped (s : Stack α) (i skipped : Nat) : Stack α :=
  { s with top := i, dead := wordSub s.dead skipped }

/-- The stack after a save. -/
def marked (s : Stack α) : Stack α := { s with snapshot := some ⟨s.top, s.top, s.dead⟩ }

/-- The stack after its save is dropped. -/
def committed (s : Stack α) (p : Snapshot) : Stack α :=
  { s with
    slots := s.entomb p
    dead := if p.save ≤ s.top then s.dead + (p.save - p.jump) else s.dead
    snapshot := none }

/-! ### Slots and counters -/

theorem top_le_frontier (s : Stack α) : s.top ≤ s.frontier := by
  unfold frontier
  split
  · exact Nat.le_max_left _ _
  · exact Nat.le_refl _

theorem save_le_frontier {p : Snapshot} (h : s.snapshot = some p) : p.save ≤ s.frontier := by
  simp only [frontier, h]
  exact Nat.le_max_right _ _

theorem resume_le_top (s : Stack α) (c : Cursor) : s.resume c ≤ s.top := by
  unfold resume
  split
  · split
    · next i h =>
      simp only [reachable, Bool.and_eq_true, decide_eq_true_eq] at h
      exact Nat.le_of_lt h.1
    · exact Nat.le_refl _
  · exact Nat.le_refl _

/-- The live slots are those below the frontier. -/
theorem live_eq (s : Stack α) :
    s.live = (List.range (min s.frontier s.capacity)).map s.slot := by
  have hlen : s.slots.toList.length = s.capacity := by simp [capacity]
  refine List.ext_getElem (by simp [live, hlen]) fun i hi hi' => ?_
  simp only [live, List.length_take, hlen] at hi
  have hsize : i < s.slots.size := by
    have := Nat.min_le_right s.frontier s.capacity
    simp only [capacity] at this hi
    omega
  simp [live, slot, hsize]

theorem length_live_eq_min (s : Stack α) : s.live.length = min s.frontier s.capacity := by
  rw [live_eq, List.length_map, List.length_range]

theorem Ordered.frontier_le_capacity (hs : s.Ordered) : s.frontier ≤ s.capacity := by
  unfold frontier
  split
  · next p hp => exact Nat.max_le.mpr ⟨hs.top_le, hs.save_le p hp⟩
  · exact hs.top_le

theorem length_live [BEq α] (hs : s.WellFormed) : s.live.length = s.frontier := by
  rw [length_live_eq_min, Nat.min_eq_left hs.ordered.frontier_le_capacity]

theorem mem_live [BEq α] (hs : s.WellFormed) {v : α} :
    v ∈ s.live ↔ ∃ i < s.frontier, s.slot i = v := by
  simp [live_eq, Nat.min_eq_left hs.ordered.frontier_le_capacity]

theorem capacity_pushed (s : Stack α) (v : α) : (s.pushed v).capacity = s.capacity := by
  simp [capacity, pushed]

theorem slot_pushed_of_lt (v : α) {i : Nat} (h : i < s.frontier) :
    (s.pushed v).slot i = s.slot i := by
  simp [slot, pushed, Nat.ne_of_gt h]

theorem slot_pushed_frontier (v : α) (h : s.frontier < s.capacity) :
    (s.pushed v).slot s.frontier = v := by
  have hsize : s.frontier < s.slots.size := h
  simp [slot, pushed, hsize]

/-- A relocation moves the jump at most. -/
theorem relocated_some {q : Snapshot} (h : s.relocated = some q) :
    ∃ p, s.snapshot = some p ∧ q.save = p.save ∧ q.dead = p.dead ∧
      (s.top < p.save ∧ q.jump = s.top ∨ p.save ≤ s.top ∧ q.jump = p.jump) := by
  obtain ⟨p, hp, rfl⟩ := Option.map_eq_some_iff.mp h
  refine ⟨p, hp, ?_⟩
  by_cases htop : s.top < p.save
  · simp [htop]
  · simp [htop, Nat.le_of_not_lt htop]

theorem frontier_pushed (s : Stack α) (v : α) : (s.pushed v).frontier = s.frontier + 1 := by
  cases hq : s.relocated with
  | none => simp [frontier, pushed, hq]
  | some q =>
    obtain ⟨p, hp, hsave, -⟩ := relocated_some hq
    have hle := save_le_frontier hp
    have hfront : (s.pushed v).frontier = max (s.frontier + 1) q.save := by
      simp [frontier, pushed, hq]
    omega

theorem rollback_marked (h : s.snapshot = none) :
    s.marked.rollback ⟨s.top, s.top, s.dead⟩ = s := by
  cases s
  simp only at h
  subst h
  rfl

theorem capacity_committed (s : Stack α) (p : Snapshot) :
    (s.committed p).capacity = s.capacity := by
  simp [capacity, committed, entomb]

theorem slot_committed (s : Stack α) (p : Snapshot) (i : Nat) :
    (s.committed p).slot i = if p.jump ≤ i ∧ i < p.save then s.null else s.slot i := by
  by_cases hi : i < s.slots.size <;> simp [slot, committed, entomb, hi]

theorem slot_committed_of_kept {p : Snapshot} (hp : s.snapshot = some p) {i : Nat}
    (hb : s.bypassed i = false) : (s.committed p).slot i = s.slot i := by
  rw [bypassed_of_saved hp] at hb
  rw [slot_committed]
  refine if_neg fun hi => ?_
  simp [hi.1, hi.2] at hb

/-! ### Clear, save, restore and forget -/

theorem hasSnapshot_of_some {p : Snapshot} (h : s.snapshot = some p) : s.hasSnapshot = true := by
  simp [hasSnapshot, h]

theorem hasSnapshot_of_none (h : s.snapshot = none) : s.hasSnapshot = false := by
  simp [hasSnapshot, h]

theorem attempt_clear_saved (h : s.hasSnapshot = true) :
    attempt clear s = (.error .clearWhileSaved, s) :=
  attempt_of_error (by simp [clear, h])

theorem attempt_clear_unsaved (h : s.hasSnapshot = false) : attempt clear s = (.ok (), s.reset) :=
  attempt_of_ok (by simp [clear, h])

theorem attempt_save_saved {p : Snapshot} (h : s.snapshot = some p) :
    attempt save s = (.error .savedTwice, s) :=
  attempt_of_error (by simp [save, h])

theorem attempt_save_unsaved (h : s.snapshot = none) : attempt save s = (.ok (), s.marked) :=
  attempt_of_ok (by simp [save, h, marked])

theorem eq_marked_of_save {t : Stack α} (h : attempt save s = (.ok (), t)) :
    s.snapshot = none ∧ t = s.marked := by
  cases hs : s.snapshot with
  | none =>
    rw [attempt_save_unsaved hs] at h
    cases h
    exact ⟨rfl, rfl⟩
  | some p =>
    rw [attempt_save_saved hs] at h
    cases h

theorem attempt_restore_saved {p : Snapshot} (h : s.snapshot = some p) :
    attempt restore s = (.ok (), s.rollback p) :=
  attempt_of_ok (by simp [restore, h, rollback])

theorem attempt_restore_unsaved (h : s.snapshot = none) :
    attempt restore s = (.error .restoreUnsaved, s) :=
  attempt_of_error (by simp [restore, h])

theorem attempt_forget_saved {p : Snapshot} (h : s.snapshot = some p) :
    attempt forget s = (.ok (), s.committed p) :=
  attempt_of_ok (by simp [forget, h, committed])

theorem attempt_forget_unsaved (h : s.snapshot = none) :
    attempt forget s = (.error .forgetUnsaved, s) :=
  attempt_of_error (by simp [forget, h])

/-! ### Push, pop and peek -/

variable [BEq α] {v : α}

theorem attempt_push_null (h : (v == s.null) = true) :
    attempt (push v) s = (.error .nullPushed, s) :=
  attempt_of_error (by simp [push, h])

theorem attempt_push_full (hv : (v == s.null) = false) (h : s.capacity ≤ s.frontier) :
    attempt (push v) s = (.error (.overflow s.capacity), s) :=
  attempt_of_error (by simp [push, hv, h])

theorem attempt_push_room (hv : (v == s.null) = false) (h : s.frontier < s.capacity) :
    attempt (push v) s = (.ok (), s.pushed v) :=
  attempt_of_ok (by simp [push, hv, Nat.not_le_of_gt h, pushed])

theorem attempt_pop_none {k : Nat} (h : s.seekBelow s.top = (none, k)) :
    attempt pop s = (.error .underflow, s) :=
  attempt_of_error (by simp [pop, h])

theorem attempt_pop_some {i k : Nat} (h : s.seekBelow s.top = (some i, k)) :
    attempt pop s = (.ok (s.slot i), s.popped i k) :=
  attempt_of_ok (by simp [pop, h, popped])

theorem attempt_peek_none (h : s.peek? = none) : attempt peek s = (.error .underflow, s) :=
  attempt_of_error (by simp [peek, h])

theorem attempt_peek_some (h : s.peek? = some v) : attempt peek s = (.ok v, s) :=
  attempt_of_ok (by simp [peek, h])

end Stack
end Narrative
