import Narrative.Proofs.Stack.Agreement

/-! Slots above everything on the stack and everything saved are not read before they are written
again. What a row held at first, what was popped and what a restore gave up make no difference. -/
namespace Narrative
namespace Stack
variable {α : Type}

theorem agree_of_live {s : Stack α} {slots : Array α} (hsize : slots.size = s.slots.size)
    (hlive : ∀ i, i < s.live.length → slots[i]? = s.slots[i]?) : s.Agree { s with slots } := by
  refine ⟨hsize.symm, rfl, rfl, rfl, rfl, fun i hi => ?_⟩
  have hlen := s.length_live_eq_min
  by_cases hcap : i < s.slots.size
  · have hcap' : i < slots.size := hsize ▸ hcap
    have hi' : i < s.live.length := by
      rw [hlen, capacity]
      omega
    simpa [slot, hcap, hcap'] using (hlive i hi').symm
  · have hcap' : ¬ i < slots.size := hsize ▸ hcap
    simp [slot, hcap, hcap']

theorem agree_ofSlots {slots slots' : Array α} (hsize : slots.size = slots'.size) (null : α) :
    (ofSlots slots null).Agree (ofSlots slots' null) :=
  ⟨hsize, rfl, rfl, rfl, rfl, fun i hi => absurd hi (Nat.not_lt_zero i)⟩

/-- The operations answer alike on both stacks and leave the same live slots. -/
def Indistinguishable [BEq α] (ops : List (Op α)) (s t : Stack α) : Prop :=
  (attempts Op.perform ops s).1 = (attempts Op.perform ops t).1 ∧
    (attempts Op.perform ops s).2.live = (attempts Op.perform ops t).2.live

theorem Agree.indistinguishable [BEq α] {s t : Stack α} (h : s.Agree t) (ops : List (Op α)) :
    Indistinguishable ops s t := by
  obtain ⟨hanswers, hagree⟩ := attempts_related respects_op ops h
  exact ⟨hanswers, hagree.live⟩

/-- No operations tell apart two stacks that differ in the slots past the live ones, nor two empty
stacks over rows of the same length. -/
theorem dead_slots_unread [BEq α] (ops : List (Op α)) :
    (∀ (s : Stack α) (slots : Array α), slots.size = s.slots.size →
      (∀ i, i < s.live.length → slots[i]? = s.slots[i]?) →
        Indistinguishable ops s { s with slots }) ∧
    ∀ (null : α) (slots slots' : Array α), slots.size = slots'.size →
      Indistinguishable ops (ofSlots slots null) (ofSlots slots' null) := by
  constructor
  · intro s slots hsize hlive
    exact (agree_of_live hsize hlive).indistinguishable ops
  · intro null slots slots' hsize
    exact (agree_ofSlots hsize null).indistinguishable ops

/-- Hops, a fill with tombstones and a push where something else was popped before. -/
def pastEverything : List (Op Nat) :=
  [.pop, .push 5, .control .toList, .control .forget, .pop, .step ⟨some 3⟩, .push 6, .live]

theorem pastEverything_unread :
    (#[1, 2, 7, 7] : Array Nat).size = (#[1, 2, 8, 9] : Array Nat).size ∧
    (∀ i, i < (Stack.mk #[1, 2, 8, 9] 0 2 0 (some ⟨2, 2, 0⟩)).live.length →
      (#[1, 2, 7, 7] : Array Nat)[i]? = (#[1, 2, 8, 9] : Array Nat)[i]?) ∧
    Indistinguishable pastEverything (Stack.mk #[1, 2, 8, 9] 0 2 0 (some ⟨2, 2, 0⟩))
      (Stack.mk #[1, 2, 7, 7] 0 2 0 (some ⟨2, 2, 0⟩)) ∧
    Indistinguishable pastEverything (ofSlots #[0, 5, 5] 0) (ofSlots #[4, 3, 2] 0) := by
  have hlive : ∀ i, i < (Stack.mk #[1, 2, 8, 9] 0 2 0 (some ⟨2, 2, 0⟩)).live.length →
      (#[1, 2, 7, 7] : Array Nat)[i]? = (#[1, 2, 8, 9] : Array Nat)[i]? := by decide
  have h := dead_slots_unread pastEverything
  exact ⟨rfl, hlive, h.1 (Stack.mk #[1, 2, 8, 9] 0 2 0 (some ⟨2, 2, 0⟩)) #[1, 2, 7, 7] rfl hlive,
    h.2 0 #[0, 5, 5] #[4, 3, 2] rfl⟩

end Stack
end Narrative
