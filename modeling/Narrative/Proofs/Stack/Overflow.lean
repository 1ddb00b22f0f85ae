import Narrative.Proofs.Stack.Plain

/-! When a push finds no room. What counts is the live part of the row: everything up to the top or the
save, tombstones and bypassed slots included. It is longer than the list of elements only because of
a save or of tombstones, and tombstones come from forgets alone. So where no forget has left any, a
stack without a save is full just when it has as many elements as slots. -/
namespace Narrative
namespace Stack
variable {α : Type} [BEq α] {s : Stack α} {v : α}

theorem push_overflow_iff (hv : (v == s.null) = false) :
    (attempt (push v) s).1 = .error (.overflow s.capacity) ↔ s.capacity ≤ s.frontier := by
  by_cases hroom : s.frontier < s.capacity
  · have hfree : ¬ s.capacity ≤ s.frontier := by omega
    simp [attempt_push_room hv hroom, hfree]
  · have hfull : s.capacity ≤ s.frontier := by omega
    simp [attempt_push_full hv hfull, hfull]

theorem size_le_frontier (hs : s.WellFormed) : s.size ≤ s.frontier := by
  have hcount := s.length_positionsBelow s.top
  have htop := s.top_le_frontier
  rw [size_eq_length hs, toList, List.length_map, positions]
  omega

/-! ### Rows without tombstones -/

/-- Every slot in use, on the stack or saved, holds an element. -/
def Solid (s : Stack α) : Prop := ∀ i < s.frontier, (s.slot i == s.null) = false

omit [BEq α] in
theorem frontier_popped_le {i k : Nat} (h : i ≤ s.top) : (s.popped i k).frontier ≤ s.frontier := by
  cases hp : s.snapshot with
  | none => simpa [frontier, popped, hp] using h
  | some p =>
    simp only [frontier, popped, hp]
    omega

/-- On a stack without a save every slot in use then holds one of the elements. -/
theorem Solid.size_eq (h : s.Solid) (hs : s.WellFormed) (hsaved : s.snapshot = none) :
    s.size = s.frontier := by
  have hcount := s.length_positionsBelow s.top
  have hfront : s.frontier = s.top := by rw [frontier, hsaved]
  have htombs : s.tombstonesBelow s.top = 0 := by
    rw [tombstonesBelow, List.countP_eq_zero]
    intro i hi
    simp [h i (by rw [hfront]; exact List.mem_range.mp hi)]
  rw [bypassedBelow_of_unsaved hsaved, htombs] at hcount
  rw [size_eq_length hs, toList, List.length_map, positions, hfront]
  omega

theorem solid_reset (s : Stack α) : s.reset.Solid := fun i hi => absurd hi (Nat.not_lt_zero i)

theorem Solid.pushed (h : s.Solid) (hv : (v == s.null) = false) (hroom : s.frontier < s.capacity) :
    (s.pushed v).Solid := by
  intro i hi
  rw [frontier_pushed] at hi
  rcases Nat.lt_or_eq_of_le (Nat.le_of_lt_succ hi) with hlt | rfl
  · rw [slot_pushed_of_lt v hlt]
    exact h i hlt
  · rw [slot_pushed_frontier v hroom]
    exact hv

theorem Solid.popped (h : s.Solid) {i : Nat} (k : Nat) (hi : i ≤ s.top) : (s.popped i k).Solid :=
  fun j hj => h j (Nat.lt_of_lt_of_le hj (frontier_popped_le hi))

theorem Solid.marked (h : s.Solid) : s.marked.Solid := by
  intro i hi
  have htop : i < s.top := by simpa [frontier, Stack.marked] using hi
  exact h i (Nat.lt_of_lt_of_le htop s.top_le_frontier)

theorem Solid.rollback (h : s.Solid) {p : Snapshot} (hp : s.snapshot = some p) :
    (s.rollback p).Solid :=
  fun i hi => h i (Nat.lt_of_lt_of_le hi (save_le_frontier hp))

/-! ### Operations -/

/-- The operation is a forget that turns an element under the top into a tombstone. -/
def Op.entombs (s : Stack α) : Op α → Bool
  | .control .forget => (List.range s.top).any fun i =>
    !(s.slot i == s.null) && (attempt forget s).2.slot i == s.null
  | _ => false

/-- The operation is a clear that succeeds or a reset. -/
def Op.empties (s : Stack α) : Op α → Bool
  | .control .clear => (attempt clear s).1.isOk
  | .control .reset => true
  | _ => false

/-- Whether no forget in the course of some operations has left a tombstone on the stack since it was
last emptied; before them it was so or not. -/
def unentombed : Bool → Stack α → List (Op α) → Bool
  | clean, _, [] => clean
  | clean, s, op :: ops =>
    unentombed (op.empties s || clean && !op.entombs s) (attempt op.perform s).2 ops

theorem Solid.committed (h : s.Solid) {p : Snapshot} (hp : s.snapshot = some p)
    (hkeeps : (Op.control (α := α) .forget).entombs s = false) : (s.committed p).Solid := by
  intro i hi
  have htop : i < s.top := hi
  have hheld := h i (Nat.lt_of_lt_of_le htop s.top_le_frontier)
  rw [Op.entombs, List.any_eq_false] at hkeeps
  have hkept := hkeeps i (List.mem_range.mpr htop)
  rw [attempt_forget_saved hp, hheld] at hkept
  have hslot : ((s.committed p).slot i == s.null) = false := by simpa using hkept
  exact hslot

theorem Solid.control (h : s.Solid) {k : Control}
    (hkeeps : (Op.control (α := α) k).entombs s = false) :
    (attempt (k.perform : StackM α (Answer α)) s).2.Solid := by
  cases k with
  | size | isEmpty | capacity | hasSnapshot | toList => exact h
  | reset => exact solid_reset s
  | clear =>
    rw [Control.perform, attempt_bind_pure]
    rcases clear_cases s with ⟨-, hclear⟩ | ⟨-, hclear⟩ <;> rw [hclear]
    · exact h
    · exact solid_reset s
  | save =>
    rw [Control.perform, attempt_bind_pure]
    cases hp : s.snapshot with
    | none => rw [attempt_save_unsaved hp]; exact h.marked
    | some p => rw [attempt_save_saved hp]; exact h
  | restore =>
    rw [Control.perform, attempt_bind_pure]
    cases hp : s.snapshot with
    | none => rw [attempt_restore_unsaved hp]; exact h
    | some p => rw [attempt_restore_saved hp]; exact h.rollback hp
  | forget =>
    rw [Control.perform, attempt_bind_pure]
    cases hp : s.snapshot with
    | none => rw [attempt_forget_unsaved hp]; exact h
    | some p => rw [attempt_forget_saved hp]; exact h.committed hp hkeeps

/-- No operation but such a forget puts the null element into a slot in use. -/
theorem Solid.op (h : s.Solid) {op : Op α} (hkeeps : op.entombs s = false) :
    (attempt op.perform s).2.Solid := by
  cases op with
  | push v =>
    rw [Op.perform, attempt_bind_pure]
    cases hv : v == s.null with
    | true => rw [attempt_push_null hv]; exact h
    | false =>
      by_cases hroom : s.frontier < s.capacity
      · rw [attempt_push_room hv hroom]
        exact h.pushed hv hroom
      · rw [attempt_push_full hv (Nat.le_of_not_lt hroom)]
        exact h
  | pop =>
    rw [Op.perform, attempt_bind_pure]
    rcases hseek : s.seekBelow s.top with ⟨_ | i, k⟩
    · rw [attempt_pop_none hseek]
      exact h
    · rw [attempt_pop_some hseek]
      have hmem : i ∈ s.positionsBelow s.top := by
        rw [(seekBelow_some hseek).1]
        exact List.mem_cons_self
      exact h.popped k (Nat.le_of_lt (mem_positionsBelow_iff.mp hmem).1)
  | peek =>
    rw [Op.perform, attempt_bind_pure]
    rcases peek_cases s with ⟨-, hpeek⟩ | ⟨v, rest, -, hpeek⟩ <;> rw [hpeek] <;> exact h
  | null | live | step => exact h
  | control k => exact h.control hkeeps

theorem solid_of_empties {op : Op α} (h : op.empties s = true) : (attempt op.perform s).2.Solid := by
  cases op with
  | control k =>
    cases k with
    | clear =>
      rw [Op.empties] at h
      rcases clear_cases s with ⟨-, hclear⟩ | ⟨-, hclear⟩ <;> rw [hclear] at h
      · cases h
      · rw [Op.perform, Control.perform, attempt_bind_pure, hclear]
        exact solid_reset s
    | reset => exact solid_reset s
    | _ => cases h
  | _ => cases h

theorem solid_of_unentombed {clean : Bool} {ops : List (Op α)} (hs : clean = true → s.Solid)
    (h : unentombed clean s ops = true) : (attempts Op.perform ops s).2.Solid := by
  induction ops generalizing clean s with
  | nil => exact hs h
  | cons op ops ih =>
    refine ih (fun hclean => ?_) h
    rw [Bool.or_eq_true, Bool.and_eq_true, Bool.not_eq_true'] at hclean
    rcases hclean with hempties | ⟨hclean, hkeeps⟩
    · exact solid_of_empties hempties
    · exact (hs hclean).op hkeeps

/-! ### Histories -/

/-- In every history the live part has room for all elements and fits in the row, and a push overflows
just when it fills the row; so it does if there are as many elements as slots. If no forget has left
a tombstone since the stack was last empty, then without a save that is the only way to overflow:
whatever was saved and restored, the live part is no longer than the list of elements. -/
theorem overflow_exact {null : α} (hnull : (null == null) = true) (slots : Array α)
    (ops : List (Op α)) {v : α} (hv : (v == null) = false) :
    let s := (attempts Op.perform ops (ofSlots slots null)).2
    (s.size ≤ s.live.length ∧ s.live.length ≤ s.capacity) ∧
    ((attempt (push v) s).1 = .error (.overflow s.capacity) ↔ s.live.length = s.capacity) ∧
    (s.size = s.capacity → (attempt (push v) s).1 = .error (.overflow s.capacity)) ∧
    (unentombed true (ofSlots slots null) ops = true → s.hasSnapshot = false →
      s.size = s.live.length ∧
      ((attempt (push v) s).1 = .error (.overflow s.capacity) ↔ s.size = s.capacity)) := by
  intro s
  have hs : s.Sound slots.size null := sound_attempts hnull slots ops
  have hlive := length_live hs.wellFormed
  have hsize := size_le_frontier hs.wellFormed
  have hfits := hs.wellFormed.ordered.frontier_le_capacity
  have hpush := push_overflow_iff (s := s) (v := v) (by rw [hs.null_eq]; exact hv)
  refine ⟨by omega, ?_, fun hfull => hpush.mpr (by omega), fun hclean hunsaved => ?_⟩
  · rw [hpush, hlive]
    omega
  · have hsolid : s.Solid := solid_of_unentombed (fun _ => solid_reset (ofSlots slots null)) hclean
    have hall := hsolid.size_eq hs.wellFormed (by simpa [hasSnapshot] using hunsaved)
    refine ⟨by omega, ?_⟩
    rw [hpush, hall]
    omega

/-- A forget leaves a tombstone, the stack is cleared, and then a speculation is given up. -/
def clearedThenRestored : List (Op Nat) :=
  [.push 1, .control .save, .pop, .push 2, .control .forget, .control .clear, .push 3, .control .save,
    .pop, .push 4, .control .restore, .push 5]

theorem clearedThenRestored_full :
    let s : Stack Nat := ⟨#[3, 5], 0, 2, 0, none⟩
    ((0 : Nat) == 0) = true ∧ ((6 : Nat) == 0) = false ∧
    unentombed true (ofSlots (Array.replicate 2 9) 0) clearedThenRestored = true ∧
    s.hasSnapshot = false ∧ s.size = s.capacity ∧
    (attempt (push 6) s).1 = .error (.overflow 2) := by
  intro s
  have hrun : (attempts Op.perform clearedThenRestored (ofSlots (Array.replicate 2 9) 0)).2 = s := by
    rfl
  have hclean : unentombed true (ofSlots (Array.replicate 2 9) 0) clearedThenRestored = true := by rfl
  have h := overflow_exact (show ((0 : Nat) == 0) = true from rfl) (Array.replicate 2 9)
    clearedThenRestored (v := 6) rfl
  rw [hrun] at h
  have hfull : s.size = s.capacity := by rfl
  exact ⟨rfl, rfl, hclean, rfl, hfull, ((h.2.2.2 hclean rfl).2).mpr hfull⟩

end Stack
end Narrative
