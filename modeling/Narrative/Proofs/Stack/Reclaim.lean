import Narrative.Proofs.Stack.Plain

/-! The room in a stack without a save that has no elements left. Every slot below its top holds a
tombstone, and the pop that finds no element leaves them where they are. So the tombstones under the
last element popped are lost to pushes, until the stack is cleared. -/
namespace Narrative
namespace Stack
variable {α : Type}

def room (s : Stack α) : Nat := s.capacity - s.frontier

/-- What so many pushes in turn are answered where so many slots are free. -/
def pushAnswers (count free capacity : Nat) : List (Except StackError (Answer α)) :=
  List.replicate (min count free) (.ok .done) ++
    List.replicate (count - free) (.error (.overflow capacity))

theorem pushAnswers_room (count free capacity : Nat) :
    pushAnswers (α := α) (count + 1) (free + 1) capacity =
      .ok .done :: pushAnswers count free capacity := by
  simp [pushAnswers, Nat.succ_min_succ, List.replicate_succ]

theorem pushAnswers_full (count capacity : Nat) :
    pushAnswers (α := α) (count + 1) 0 capacity =
      .error (.overflow capacity) :: pushAnswers count 0 capacity := by
  simp [pushAnswers, List.replicate_succ]

theorem room_pushed {s : Stack α} (v : α) : (s.pushed v).room = s.room - 1 := by
  rw [room, room, capacity_pushed, frontier_pushed, Nat.sub_sub]

variable [BEq α] {s : Stack α} {null : α}

/-- Pushes in turn succeed up to the number of free slots, whatever lies on the stack. -/
theorem answers_pushes {vs : List α} (hvs : ∀ v ∈ vs, (v == s.null) = false) :
    (attempts Op.perform (vs.map .push) s).1 = pushAnswers vs.length s.room s.capacity := by
  induction vs generalizing s with
  | nil => simp [attempts, pushAnswers]
  | cons v vs ih =>
    have hv := hvs v List.mem_cons_self
    have hrest : ∀ w ∈ vs, (w == s.null) = false := fun w hw => hvs w (List.mem_cons_of_mem v hw)
    by_cases hroom : s.frontier < s.capacity
    · have hstep : attempt (Op.push v).perform s = (.ok .done, s.pushed v) := by
        rw [Op.perform, attempt_bind_pure, attempt_push_room hv hroom]
        rfl
      have hfree : s.room = (s.pushed v).room + 1 := by
        rw [room_pushed, room]
        omega
      rw [List.map_cons, attempts, hstep, List.length_cons, hfree, pushAnswers_room]
      refine congrArg _ ((ih (s := s.pushed v) hrest).trans ?_)
      rw [capacity_pushed]
    · have hfull : s.capacity ≤ s.frontier := Nat.le_of_not_lt hroom
      have hstep : attempt (Op.push v).perform s = (.error (.overflow s.capacity), s) := by
        rw [Op.perform, attempt_bind_pure, attempt_push_full hv hfull]
        rfl
      have hfree : s.room = 0 := Nat.sub_eq_zero_of_le hfull
      have hanswers := ih hrest
      rw [hfree] at hanswers
      rw [List.map_cons, attempts, hstep, List.length_cons, hfree, pushAnswers_full]
      exact congrArg _ hanswers

/-- What is left below the top of a stack without elements is tombstones. -/
theorem null_of_mem_live (hs : s.WellFormed) (hsnap : s.snapshot = none) (hsize : s.size = 0)
    {v : α} (hv : v ∈ s.live) : (v == s.null) = true := by
  have hnone : s.positions = [] := by
    have hlen := size_eq_length hs
    rw [hsize, toList, List.length_map] at hlen
    exact List.eq_nil_of_length_eq_zero hlen.symm
  obtain ⟨i, hi, rfl⟩ := (mem_live hs).mp hv
  have hlt : i < s.top := by rwa [frontier, hsnap] at hi
  have hvacant : s.vacant i = true := by
    cases hvac : s.vacant i with
    | true => rfl
    | false =>
      have hmem : i ∈ s.positions := mem_positionsBelow_iff.mpr ⟨hlt, hvac⟩
      rw [hnone] at hmem
      cases hmem
  rwa [vacant, bypassed_of_unsaved hsnap, Bool.false_or] at hvacant

/-- A stack without a save and without elements has lost as many slots as tombstones lie below its
top, and pushes in turn fill the rest of the row. A clear gives the whole row back. -/
theorem emptied_room (hnull : (null == null) = true) (slots : Array α) (ops : List (Op α))
    (vs : List α) (hvs : ∀ v ∈ vs, (v == null) = false) :
    let s := (attempts Op.perform ops (ofSlots slots null)).2
    s.hasSnapshot = false → s.size = 0 →
      (∀ v ∈ s.live, (v == null) = true) ∧
      (attempts Op.perform (vs.map .push) s).1 =
        pushAnswers vs.length (slots.size - s.live.length) slots.size ∧
      attempt clear s = (.ok (), s.reset) ∧
      (attempts Op.perform (vs.map .push) s.reset).1 =
        pushAnswers vs.length slots.size slots.size := by
  intro s hsaved hsize
  have hs : s.Sound slots.size null := sound_attempts hnull slots ops
  have hsnap : s.snapshot = none := by simpa [hasSnapshot] using hsaved
  have hpush : ∀ v ∈ vs, (v == s.null) = false := by rwa [hs.null_eq]
  have hroom : s.room = slots.size - s.live.length := by
    rw [room, hs.capacity_eq, length_live hs.wellFormed]
  have hreset : s.reset.room = slots.size := by
    change s.capacity - 0 = _
    rw [hs.capacity_eq, Nat.sub_zero]
  refine ⟨fun v hv => ?_, ?_, attempt_clear_unsaved hsaved, ?_⟩
  · rw [← hs.null_eq]
    exact null_of_mem_live hs.wellFormed hsnap hsize hv
  · rw [answers_pushes hpush, hroom, hs.capacity_eq]
  · have hcap : s.reset.capacity = slots.size := hs.capacity_eq
    rw [answers_pushes (s := s.reset) hpush, hreset, hcap]

/-- The forget leaves one tombstone at the bottom, and the last pop finds nothing above it. -/
def drained : List (Op Nat) :=
  [.push 1, .control .save, .pop, .push 2, .control .forget, .pop, .pop]

theorem drained_room :
    ((0 : Nat) == 0) = true ∧ (∀ v ∈ [3, 4], ((v : Nat) == 0) = false) ∧
    (Stack.mk #[0, 2] 0 1 1 none).hasSnapshot = false ∧ (Stack.mk #[0, 2] 0 1 1 none).size = 0 ∧
    (attempts Op.perform ([3, 4].map .push) (Stack.mk #[0, 2] 0 1 1 none)).1 =
      pushAnswers 2 1 2 := by
  have hdrained : (attempts Op.perform drained (ofCapacity 2 0)).2 = ⟨#[0, 2], 0, 1, 1, none⟩ := by
    rfl
  have h := emptied_room (show ((0 : Nat) == 0) = true from rfl) (Array.replicate 2 0) drained [3, 4]
    (by decide)
  rw [← ofCapacity, hdrained] at h
  exact ⟨rfl, by decide, rfl, by decide, (h rfl (by decide)).2.1⟩

/-- So a stack with nothing on it may be full. -/
theorem drained_overflows :
    let s := (attempts Op.perform drained (ofCapacity 2 0)).2
    s.hasSnapshot = false ∧ s.size = 0 ∧ s.capacity = 2 ∧
    (attempts Op.perform [.push 3, .push 4] s).1 = [.ok .done, .error (.overflow 2)] := by
  have hdrained : (attempts Op.perform drained (ofCapacity 2 0)).2 = ⟨#[0, 2], 0, 1, 1, none⟩ := by
    rfl
  rw [hdrained]
  exact ⟨rfl, by decide, rfl, by rfl⟩

/-! ### Losing slot after slot -/

section Spill
variable {l : Layout α} {v : α}

theorem push_of_layout (hs : s.WellFormed) (hl : s.layout = l) (hv : (v == l.null) = false)
    (hroom : l.frontier < l.capacity) :
    ∃ t, attempt (push v) s = (.ok (), t) ∧ t.WellFormed ∧ t.layout = l.push v := by
  subst hl
  rw [frontier_layout] at hroom
  exact ⟨s.pushed v, attempt_push_room hv hroom, wellFormed_pushed hs hv hroom,
    layout_pushed hs hv hroom⟩

theorem pop_of_layout (hs : s.WellFormed) (hl : s.layout = l) {i : Nat}
    {rest : List (Nat × α)} (hcells : l.now.cells = (i, v) :: rest) :
    ∃ t, attempt pop s = (.ok v, t) ∧ t.WellFormed ∧ t.layout = { l with now := ⟨i, rest⟩ } := by
  subst hl
  rcases pop_cases hs with ⟨hnil, -⟩ | ⟨i', v', rest', t, hcells', h, ht, hl⟩
  · rw [hnil] at hcells
    cases hcells
  · rw [hcells'] at hcells
    cases hcells
    exact ⟨t, h, ht, hl⟩

theorem save_of_layout (hs : s.WellFormed) (hl : s.layout = l) (hsaved : l.saved = none) :
    ∃ t, attempt save s = (.ok (), t) ∧ t.WellFormed ∧ t.layout = l.save := by
  subst hl
  have hsnap := saved_layout_eq_none.mp hsaved
  exact ⟨s.marked, attempt_save_unsaved hsnap, wellFormed_marked hs hsnap, layout_marked hsnap⟩

theorem forget_of_layout (hs : s.WellFormed) (hnull : (l.null == l.null) = true) (hl : s.layout = l)
    {r : Sheet α} (hsaved : l.saved = some r) :
    ∃ t, attempt forget s = (.ok (), t) ∧ t.WellFormed ∧ t.layout = l.forget := by
  subst hl
  rcases forget_cases hs hnull with ⟨hnone, -⟩ | ⟨r', t, -, h, ht, hl⟩
  · rw [hnone] at hsaved
    cases hsaved
  · exact ⟨t, h, ht, hl⟩

/-- An element is saved, popped and pushed past, so that the forget leaves a tombstone in its slot. -/
def spill (v : α) : List (Op α) := [.push v, .control .save, .pop, .push v, .control .forget, .pop]

theorem spill_drained {capacity k : Nat} (hnull : (null == null) = true)
    (hv : (v == null) = false) (hs : s.WellFormed)
    (hl : s.layout = ⟨capacity, null, ⟨k, []⟩, none⟩) (hk : k + 1 < capacity) :
    (attempts Op.perform (spill v) s).2.WellFormed ∧
      (attempts Op.perform (spill v) s).2.layout = ⟨capacity, null, ⟨k + 1, []⟩, none⟩ := by
  obtain ⟨s₁, h₁, hs₁, hl₁⟩ := push_of_layout hs hl hv (Nat.lt_of_succ_lt hk)
  obtain ⟨s₂, h₂, hs₂, hl₂⟩ := save_of_layout hs₁ hl₁ rfl
  obtain ⟨s₃, h₃, hs₃, hl₃⟩ := pop_of_layout hs₂ hl₂ rfl
  obtain ⟨s₄, h₄, hs₄, hl₄⟩ := push_of_layout hs₃ hl₃ hv (by
    simp only [Layout.frontier, Layout.save, Layout.push]
    omega)
  obtain ⟨s₅, h₅, hs₅, hl₅⟩ := forget_of_layout hs₄ hnull hl₄ rfl
  obtain ⟨s₆, h₆, hs₆, hl₆⟩ := pop_of_layout hs₅ hl₅ rfl
  simp only [spill, attempts, Op.perform, Control.perform, attempt_bind_pure, h₁, h₂, h₃, h₄, h₅, h₆]
  refine ⟨hs₆, hl₆.trans ?_⟩
  simp [Layout.frontier, Layout.save, Layout.push, Layout.forget]

theorem spills_drained (hnull : (null == null) = true) (hv : (v == null) = false) (slots : Array α)
    {k : Nat} (hk : k < slots.size) :
    let s := (attempts Op.perform (List.replicate k (spill v)).flatten (ofSlots slots null)).2
    s.WellFormed ∧ s.layout = ⟨slots.size, null, ⟨k, []⟩, none⟩ := by
  induction k with
  | zero => exact ⟨wellFormed_ofSlots slots null, rfl⟩
  | succ k ih =>
    obtain ⟨hs, hl⟩ := ih (Nat.lt_of_succ_lt hk)
    rw [List.replicate_succ', List.flatten_append, attempts_append, List.flatten_singleton]
    exact spill_drained hnull hv hs hl hk

/-- Every spill costs a slot, though it leaves nothing on the stack. -/
theorem room_after_spills (hnull : (null == null) = true) (hv : (v == null) = false)
    (slots : Array α) {k : Nat} (hk : k < slots.size) :
    let s := (attempts Op.perform (List.replicate k (spill v)).flatten (ofSlots slots null)).2
    s.hasSnapshot = false ∧ s.size = 0 ∧ s.room = slots.size - k := by
  intro s
  obtain ⟨hs, hl⟩ := spills_drained hnull hv slots hk
  have hcap : s.capacity = slots.size := congrArg Layout.capacity hl
  refine ⟨hasSnapshot_of_none (saved_layout_eq_none.mp (by rw [hl])), ?_, ?_⟩
  · rw [size_eq_length hs, ← elements_layout, hl]
    rfl
  · rw [room, ← frontier_layout, hl, hcap]
    rfl

end Spill

end Stack
end Narrative
