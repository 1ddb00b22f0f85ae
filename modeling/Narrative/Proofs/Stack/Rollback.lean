import Narrative.Proofs.Stack.Agreement

/-! What a save protects: as long as it is outstanding, a restore goes back to a stack that agrees
with the one that was saved. Pops may take the top below the save and pushes past it again, any number
of times; the slots below the save, tombstones and all, and what the save remembers stay as they are. -/
namespace Narrative
namespace Stack
variable {α : Type}

/-- The operations that can end a save. -/
def Control.endsSave : Control → Bool
  | .restore | .forget | .reset => true
  | _ => false

def Op.endsSave : Op α → Bool
  | .control k => k.endsSave
  | _ => false

/-- The stack has a save outstanding, and a restore goes back to a stack like the given one. -/
def RollsBackTo (r s : Stack α) : Prop := ∃ p, s.snapshot = some p ∧ r.Agree (s.rollback p)

variable {r s t : Stack α}

/-- A restore depends on the save and on the slots below it alone. -/
theorem RollsBackTo.of_saved_slots (h : r.RollsBackTo s) {p q : Snapshot}
    (hp : s.snapshot = some p) (hq : t.snapshot = some q) (hsave : q.save = p.save)
    (hdead : q.dead = p.dead) (hsize : t.slots.size = s.slots.size) (hnull : t.null = s.null)
    (hslot : ∀ i, i < p.save → t.slot i = s.slot i) : r.RollsBackTo t := by
  obtain ⟨p', hp', hagree⟩ := h
  obtain rfl : p = p' := Option.some.inj (hp.symm.trans hp')
  refine ⟨q, hq, hagree.trans ⟨hsize.symm, hnull.symm, hsave.symm, hdead.symm, rfl, fun i hi => ?_⟩⟩
  exact (hslot i hi).symm

theorem RollsBackTo.exists_snapshot (h : r.RollsBackTo s) : ∃ p, s.snapshot = some p := by
  obtain ⟨p, hp, -⟩ := h
  exact ⟨p, hp⟩

theorem RollsBackTo.isSaved (h : r.RollsBackTo s) : s.hasSnapshot = true := by
  obtain ⟨p, hp⟩ := h.exists_snapshot
  exact hasSnapshot_of_some hp

theorem rollsBackTo_marked (h : s.snapshot = none) : s.RollsBackTo s.marked :=
  ⟨⟨s.top, s.top, s.dead⟩, rfl, by rw [rollback_marked h]; exact .refl s⟩

/-- All that was saved of the first stack is still there in the second. -/
structure SaveIntact (s t : Stack α) : Prop where
  snapshot : ∃ p, t.snapshot = some p ∧ p.save = s.top ∧ p.dead = s.dead
  slots : ∀ i, i < s.top → t.slots[i]? = s.slots[i]?
  restored : ∃ r, attempt restore t = (.ok (), r) ∧ r.top = s.top ∧ r.dead = s.dead ∧ r.live = s.live

theorem RollsBackTo.saveIntact (h : s.RollsBackTo t) : s.SaveIntact t := by
  obtain ⟨p, hp, hagree⟩ := h
  have htop := hagree.top_eq.symm
  have hdead := hagree.dead_eq.symm
  refine ⟨⟨p, hp, htop, hdead⟩, fun i hi => ?_, ?_⟩
  · exact (hagree.getElem?_slots (Nat.lt_of_lt_of_le hi s.top_le_frontier)).symm
  · exact ⟨t.rollback p, attempt_restore_saved hp, htop, hdead, hagree.live.symm⟩

/-- Operations of any kind that leave a save outstanding leave it intact. -/
theorem attempts_saveIntact {β ι : Type} {perform : ι → StackM α β} {ops : List ι}
    (hsave : attempt save s = (.ok (), t))
    (hops : ∀ op ∈ ops, Preserves (RollsBackTo s) (perform op)) :
    s.SaveIntact (attempts perform ops t).2 := by
  obtain ⟨hnone, rfl⟩ := eq_marked_of_save hsave
  exact (attempts_preserve hops (rollsBackTo_marked hnone)).saveIntact

/-! ### Operations -/

theorem preserves_clear : Preserves (RollsBackTo r) (clear : StackM α Unit) := by
  intro s h
  rw [attempt_clear_saved h.isSaved]
  exact h

theorem preserves_save : Preserves (RollsBackTo r) (save : StackM α Unit) := by
  intro s h
  obtain ⟨p, hp⟩ := h.exists_snapshot
  rw [attempt_save_saved hp]
  exact h

variable [BEq α]

theorem preserves_push (v : α) : Preserves (RollsBackTo r) (push v) := by
  intro s h
  cases hv : (v == s.null) with
  | true =>
    rw [attempt_push_null hv]
    exact h
  | false =>
    by_cases hroom : s.frontier < s.capacity
    · rw [attempt_push_room hv hroom]
      obtain ⟨p, hp⟩ := h.exists_snapshot
      cases hq : s.relocated with
      | none => simp [relocated, hp] at hq
      | some q =>
        obtain ⟨p', hp', hsave, hdead, -⟩ := relocated_some hq
        obtain rfl : p = p' := Option.some.inj (hp.symm.trans hp')
        have hfront := save_le_frontier hp
        exact h.of_saved_slots hp hq hsave hdead (by simp [pushed]) rfl fun i hi =>
          slot_pushed_of_lt v (Nat.lt_of_lt_of_le hi hfront)
    · rw [attempt_push_full hv (Nat.le_of_not_lt hroom)]
      exact h

theorem preserves_pop : Preserves (RollsBackTo r) (pop : StackM α α) := by
  intro s h
  cases hseek : s.seekBelow s.top with
  | mk found k =>
    cases found with
    | none =>
      rw [attempt_pop_none hseek]
      exact h
    | some i =>
      rw [attempt_pop_some hseek]
      obtain ⟨p, hp, hagree⟩ := h
      exact ⟨p, hp, hagree⟩

theorem preserves_peek : Preserves (RollsBackTo r) (peek : StackM α α) := by
  intro s h
  cases hs : s.peek? with
  | none => rwa [attempt_peek_none hs]
  | some v => rwa [attempt_peek_some hs]

theorem preserves_control {k : Control} (hk : k.endsSave = false) :
    Preserves (RollsBackTo r) (k.perform : StackM α (Answer α)) := by
  cases k with
  | size | isEmpty | capacity | hasSnapshot | toList => exact .query _
  | clear => exact preserves_clear.bind fun _ => .pure _
  | save => exact preserves_save.bind fun _ => .pure _
  | reset | restore | forget => cases hk

theorem preserves_op {op : Op α} (hop : op.endsSave = false) :
    Preserves (RollsBackTo r) op.perform := by
  cases op with
  | push v => exact (preserves_push v).bind fun _ => .pure _
  | pop => exact preserves_pop.bind fun _ => .pure _
  | peek => exact preserves_peek.bind fun _ => .pure _
  | null | live | step => exact .query _
  | control k => exact preserves_control hop

end Stack
end Narrative
