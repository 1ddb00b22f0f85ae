import Narrative.Number.Binary32
import Narrative.Proofs.Stack.Checked
import Narrative.Proofs.Stack.Plain
import Narrative.Proofs.Stack.Retained

/-! How far the null element is reserved. It is recognised by `==` alone, while tombstones are counted
when a save is dropped, whether or not they compare equal to the null element. So a null element that
equals itself is never pushed, never handed out and always counted right. One that does not can be
pushed and is handed out like any other element; the count of tombstones is then too high, which breaks
nothing off but the number of elements. -/
namespace Narrative
namespace Stack
variable {α : Type} [BEq α] {s : Stack α}

/-! ### No tombstone is left out of the count -/

theorem Bounded.of_unsaved (htop : s.top ≤ s.capacity) (h : s.snapshot = none)
    (hdead : s.tombstonesBelow s.top ≤ s.dead) : s.Bounded :=
  ⟨.of_unsaved htop h, hdead, fun p hp => by simp [h] at hp⟩

theorem bounded_reset (s : Stack α) : s.reset.Bounded :=
  .of_unsaved (Nat.zero_le _) rfl (Nat.le_refl 0)

namespace Bounded
variable (hs : s.Bounded)
include hs

theorem pushed {v : α} (hv : (v == s.null) = false) (hroom : s.frontier < s.capacity) :
    (s.pushed v).Bounded where
  toOrdered := hs.toOrdered.pushed v hroom
  tombstones_le := by
    change (s.pushed v).tombstonesBelow (s.frontier + 1) ≤ s.dead
    rw [tombstonesBelow_pushed hs.toOrdered hv hroom]
    exact hs.tombstones_le
  saved_tombstones_le q hq := by
    obtain ⟨p, hp, hsave, hdead, -⟩ := relocated_some hq
    rw [hsave, hdead, tombstonesBelow_rollback_pushed v hp]
    exact hs.saved_tombstones_le p hp

theorem popped {i k : Nat} (h : s.seekBelow s.top = (some i, k)) : (s.popped i k).Bounded := by
  obtain ⟨hpos, htomb⟩ := seekBelow_some h
  obtain ⟨hlt, hvac⟩ : i < s.top ∧ s.vacant i = false :=
    mem_positionsBelow_iff.mp (by rw [hpos]; exact List.mem_cons_self)
  have hdead := hs.tombstones_le
  refine ⟨hs.toOrdered.popped k hlt (Bool.or_eq_false_iff.mp hvac).1, ?_, hs.saved_tombstones_le⟩
  change s.tombstonesBelow i ≤ wordSub s.dead k
  rw [wordSub, if_pos (by omega)]
  omega

theorem marked (h : s.snapshot = none) : s.marked.Bounded := by
  refine ⟨hs.toOrdered.marked, ?_, ?_⟩
  · change s.marked.tombstonesBelow s.top ≤ s.dead
    rw [tombstonesBelow_marked h]
    exact hs.tombstones_le
  · rintro p ⟨⟩
    rw [rollback_marked h]
    exact hs.tombstones_le

theorem rollback {p : Snapshot} (hp : s.snapshot = some p) : (s.rollback p).Bounded :=
  .of_unsaved (hs.save_le p hp) rfl (hs.saved_tombstones_le p hp)

omit hs in
/-- A bypassed slot becomes a tombstone, if the null element in it is recognised. -/
theorem tombstonesBelow_committed_le {p : Snapshot} (hp : s.snapshot = some p) (n : Nat) :
    (s.committed p).tombstonesBelow n ≤ s.tombstonesBelow n + s.bypassedBelow n := by
  induction n with
  | zero => exact Nat.le_refl 0
  | succ n ih =>
    rw [tombstonesBelow_succ, tombstonesBelow_succ, bypassedBelow_succ]
    cases hb : s.bypassed n with
    | true =>
      simp only [if_true]
      split <;> split <;> omega
    | false =>
      have hfree : (s.committed p).snapshot = none := rfl
      rw [slot_committed_of_kept hp hb, bypassed_of_unsaved hfree]
      change _ + (if !false && s.slot n == s.null then 1 else 0) ≤ _
      split <;> omega

theorem committed {p : Snapshot} (hp : s.snapshot = some p) : (s.committed p).Bounded := by
  have hjump := hs.jump_le p hp
  have htop := hs.top_lt_jump p hp
  have hdead := hs.tombstones_le
  have hle := tombstonesBelow_committed_le hp s.top
  rw [bypassedBelow_of_saved hp hjump] at hle
  refine .of_unsaved ?_ rfl ?_
  · rw [capacity_committed]
    exact hs.top_le
  · change (s.committed p).tombstonesBelow s.top ≤
      if p.save ≤ s.top then s.dead + (p.save - p.jump) else s.dead
    split <;> omega

end Bounded

/-! ### Operations -/

/-- The null element stays the same, and the count of tombstones stays high enough. -/
def BoundedOver (null : α) (s : Stack α) : Prop := s.Bounded ∧ s.null = null

section Operations
variable {null : α}

theorem preserves_bounded_push (v : α) : Preserves (BoundedOver null) (push v) := by
  intro s hs
  cases hv : (v == s.null) with
  | true => rwa [attempt_push_null hv]
  | false =>
    by_cases hroom : s.frontier < s.capacity
    · rw [attempt_push_room hv hroom]
      exact ⟨hs.1.pushed hv hroom, hs.2⟩
    · rwa [attempt_push_full hv (Nat.le_of_not_lt hroom)]

theorem preserves_bounded_pop : Preserves (BoundedOver null) (pop : StackM α α) := by
  intro s hs
  cases hseek : s.seekBelow s.top with
  | mk found k =>
    cases found with
    | none => rwa [attempt_pop_none hseek]
    | some i =>
      rw [attempt_pop_some hseek]
      exact ⟨hs.1.popped hseek, hs.2⟩

theorem preserves_bounded_peek : Preserves (BoundedOver null) (peek : StackM α α) := by
  intro s hs
  cases hv : s.peek? with
  | none => rwa [attempt_peek_none hv]
  | some v => rwa [attempt_peek_some hv]

theorem preserves_bounded_clear : Preserves (BoundedOver null) (clear : StackM α Unit) := by
  intro s hs
  cases h : s.hasSnapshot with
  | true => rwa [attempt_clear_saved h]
  | false =>
    rw [attempt_clear_unsaved h]
    exact ⟨bounded_reset s, hs.2⟩

theorem preserves_bounded_save : Preserves (BoundedOver null) (save : StackM α Unit) := by
  intro s hs
  cases h : s.snapshot with
  | some p => rwa [attempt_save_saved h]
  | none =>
    rw [attempt_save_unsaved h]
    exact ⟨hs.1.marked h, hs.2⟩

theorem preserves_bounded_restore : Preserves (BoundedOver null) (restore : StackM α Unit) := by
  intro s hs
  cases h : s.snapshot with
  | none => rwa [attempt_restore_unsaved h]
  | some p =>
    rw [attempt_restore_saved h]
    exact ⟨hs.1.rollback h, hs.2⟩

theorem preserves_bounded_forget : Preserves (BoundedOver null) (forget : StackM α Unit) := by
  intro s hs
  cases h : s.snapshot with
  | none => rwa [attempt_forget_unsaved h]
  | some p =>
    rw [attempt_forget_saved h]
    exact ⟨hs.1.committed h, hs.2⟩

theorem preserves_bounded_op (op : Op α) : Preserves (BoundedOver null) op.perform := by
  cases op with
  | push v => exact (preserves_bounded_push v).bind fun _ => .pure _
  | pop => exact preserves_bounded_pop.bind fun _ => .pure _
  | peek => exact preserves_bounded_peek.bind fun _ => .pure _
  | null | live | step => exact .query _
  | control k =>
    cases k with
    | size | isEmpty | capacity | hasSnapshot | toList => exact .query _
    | clear => exact preserves_bounded_clear.bind fun _ => .pure _
    | reset => exact fun s hs => ⟨bounded_reset s, hs.2⟩
    | save => exact preserves_bounded_save.bind fun _ => .pure _
    | restore => exact preserves_bounded_restore.bind fun _ => .pure _
    | forget => exact preserves_bounded_forget.bind fun _ => .pure _

end Operations

/-! ### Histories -/

/-- A push is refused as null exactly if its element compares equal to the null element. -/
theorem push_refused_iff (v : α) :
    (attempt (push v) s).1 = .error .nullPushed ↔ (v == s.null) = true := by
  cases hv : (v == s.null) with
  | true => simp [attempt_push_null hv]
  | false =>
    by_cases hroom : s.frontier < s.capacity
    · simp [attempt_push_room hv hroom]
    · simp [attempt_push_full hv (Nat.le_of_not_lt hroom)]

/-- A pop, a look at the top, an iteration or a step of a cursor would answer with the element. -/
def HandsOut (s : Stack α) (v : α) : Prop :=
  ∃ (op : Op α) (a : Answer α) (t : Stack α),
    op.yields = true ∧ attempt op.perform s = (.ok a, t) ∧ v ∈ a.handedOut

theorem HandsOut.beq_null_eq {v : α} (h : s.HandsOut v) : (v == s.null) = false := by
  obtain ⟨op, a, t, hop, hok, hv⟩ := h
  obtain ⟨i, -, hvac, rfl⟩ := mem_toList.mp (mem_toList_of_yields hop hok hv)
  exact (Bool.or_eq_false_iff.mp hvac).2

/-- In every history over any null element a push is refused for what compares equal to it, nothing of
that kind is handed out, and no index leaves the row and no difference falls below zero but in the
number of elements. If the null element equals itself, then it is never handed out, and the number of
elements is sound too. -/
theorem histories_reserve_null (null : α) (slots : Array α) (ops : List (Op α)) :
    let s := (attempts Op.perform ops (ofSlots slots null)).2
    (∀ v, (attempt (push v) s).1 = .error .nullPushed ↔ (v == null) = true) ∧
    (∀ v, s.HandsOut v → (v == null) = false) ∧
    (∀ op : Op α, op.counts = false → op.checked s = some (attempt op.perform s)) ∧
    ((null == null) = true →
      ¬ s.HandsOut null ∧ ∀ op : Op α, op.checked s = some (attempt op.perform s)) := by
  intro s
  obtain ⟨hbounded, hsnull⟩ : BoundedOver null s :=
    attempts_preserve (fun op _ => preserves_bounded_op op)
      ⟨(wellFormed_ofSlots slots null).bounded, rfl⟩
  have hpush (v : α) : (attempt (push v) s).1 = .error .nullPushed ↔ (v == null) = true := by
    rw [← hsnull]
    exact push_refused_iff v
  have hout (v : α) (h : s.HandsOut v) : (v == null) = false := by
    rw [← hsnull]
    exact h.beq_null_eq
  refine ⟨hpush, hout, fun op hop => Op.checked_eq hbounded hop, fun hnull => ⟨fun h => ?_, ?_⟩⟩
  · have hne := hout null h
    rw [hnull] at hne
    cases hne
  · intro op
    exact checked_op op (sound_attempts hnull slots ops).wellFormed

/-- The first element is bypassed and filled when the save is dropped, and the second is popped. -/
def entombFirst (v w : α) : List (Op α) :=
  [.push v, .control .save, .pop, .push w, .control .forget, .pop]

/-- A tombstone of zeros is not handed out. -/
theorem zero_reserved :
    ((0 : Nat) == 0) = true ∧
    (attempt (push 0) (Stack.mk #[0, 2] 0 1 1 none)).1 = .error .nullPushed ∧
    (Op.pop (α := Nat)).checked (Stack.mk #[0, 2] 0 1 1 none) =
      some (.error .underflow, Stack.mk #[0, 2] 0 1 1 none) ∧
    (Op.control (α := Nat) .size).checked (Stack.mk #[0, 2] 0 1 1 none) =
      some (.ok (.count 0), Stack.mk #[0, 2] 0 1 1 none) := by
  have hrun : (attempts Op.perform (entombFirst 1 2) (ofSlots #[7, 8] 0)).2 =
      Stack.mk #[0, 2] 0 1 1 none := by rfl
  have h := histories_reserve_null (0 : Nat) #[7, 8] (entombFirst 1 2)
  simp only [hrun] at h
  obtain ⟨hpush, -, hchecked, hnull⟩ := h
  exact ⟨rfl, (hpush 0).mpr rfl, hchecked .pop rfl, (hnull rfl).2 (.control .size)⟩

def nan : Binary32 := ⟨0x7fc00000⟩

/-- Where the null element is no number, the tombstone is handed out by a pop, a tombstone that is gone
is still counted, and the null element is pushed. -/
theorem nan_not_reserved :
    (attempts Op.perform (entombFirst ⟨0x3f800000⟩ ⟨0x40000000⟩ ++ [.pop, .push nan])
      (ofCapacity 2 nan)).1 =
      [.ok .done, .ok .done, .ok (.element ⟨0x3f800000⟩), .ok .done, .ok .done,
        .ok (.element ⟨0x40000000⟩), .ok (.element nan), .ok .done] ∧
    (Op.control .size).checked
      (attempts Op.perform (entombFirst ⟨0x3f800000⟩ ⟨0x40000000⟩ ++ [.pop]) (ofCapacity 2 nan)).2 =
      none := by
  constructor <;> rfl

end Stack
end Narrative
