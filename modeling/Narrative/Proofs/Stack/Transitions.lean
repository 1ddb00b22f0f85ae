import Narrative.Proofs.Stack.Push

/-! All that an operation on a well formed stack can do: the ways in which it fails, which change
nothing, and what it does to the layout when it does not fail. -/
namespace Narrative
namespace Stack
variable {α : Type} {s : Stack α}

/-! ### Push, pop and peek -/

variable [BEq α]

theorem push_cases (v : α) (hs : s.WellFormed) :
    (v == s.null) = true ∧ attempt (push v) s = (.error .nullPushed, s) ∨
    (v == s.null) = false ∧ s.capacity ≤ s.frontier ∧
      attempt (push v) s = (.error (.overflow s.capacity), s) ∨
    ∃ t, (v == s.null) = false ∧ s.frontier < s.capacity ∧ attempt (push v) s = (.ok (), t) ∧
      t.WellFormed ∧ t.layout = s.layout.push v := by
  cases hv : (v == s.null) with
  | true => exact .inl ⟨rfl, attempt_push_null hv⟩
  | false =>
    by_cases hroom : s.frontier < s.capacity
    · exact .inr (.inr ⟨s.pushed v, rfl, hroom, attempt_push_room hv hroom,
        wellFormed_pushed hs hv hroom, layout_pushed hs hv hroom⟩)
    · have hfull := Nat.le_of_not_lt hroom
      exact .inr (.inl ⟨rfl, hfull, attempt_push_full hv hfull⟩)

theorem positionsBelow_popped (s : Stack α) (i k n : Nat) :
    (s.popped i k).positionsBelow n = s.positionsBelow n :=
  positionsBelow_congr fun _ _ => rfl

omit [BEq α] in
theorem Ordered.popped (hs : s.Ordered) {i : Nat} (k : Nat) (hlt : i < s.top)
    (hb : s.bypassed i = false) : (s.popped i k).Ordered where
  top_le := Nat.le_of_lt (Nat.lt_of_lt_of_le hlt hs.top_le)
  jump_le := hs.jump_le
  save_le := hs.save_le
  top_lt_jump p hp hsave := by
    -- the new top is not bypassed, so below the save it lies below the jump
    change s.snapshot = some p at hp
    change i < p.save at hsave
    change i < p.jump
    rw [bypassed_of_saved hp] at hb
    simp only [hsave, decide_true, Bool.and_true, decide_eq_false_iff_not] at hb
    omega

theorem wellFormed_popped {i k : Nat} (hs : s.WellFormed)
    (hpos : s.positions = i :: s.positionsBelow i)
    (htomb : s.tombstonesBelow s.top = s.tombstonesBelow i + k) : (s.popped i k).WellFormed := by
  obtain ⟨hlt, hvac⟩ : i < s.top ∧ s.vacant i = false :=
    mem_positionsBelow_iff.mp (by rw [← positions, hpos]; exact List.mem_cons_self)
  have hordered := hs.ordered.popped k hlt (Bool.or_eq_false_iff.mp hvac).1
  have hdead := hs.dead_eq
  constructor
  · exact hordered.top_le
  · change wordSub s.dead k = s.tombstonesBelow i
    rw [wordSub, if_pos (by omega)]
    omega
  · intro p hp
    have hfit := hs.fits p hp
    exact ⟨hfit.jump_le, hfit.save_le, hordered.top_lt_jump p hp, hfit.dead_eq, fun j hj hji =>
      hfit.fresh j hj (Nat.lt_trans hji hlt)⟩

theorem pop_cases (hs : s.WellFormed) :
    s.layout.now.cells = [] ∧ attempt pop s = (.error .underflow, s) ∨
    ∃ i v rest t, s.layout.now.cells = (i, v) :: rest ∧ attempt pop s = (.ok v, t) ∧
      t.WellFormed ∧ t.layout = { s.layout with now := ⟨i, rest⟩ } := by
  cases hseek : s.seekBelow s.top with
  | mk found k =>
    cases found with
    | none =>
      refine .inl ⟨?_, attempt_pop_none hseek⟩
      simp [layout, sheet, positions, seekBelow_none hseek]
    | some i =>
      obtain ⟨hpos, htomb⟩ := seekBelow_some hseek
      refine .inr ⟨i, s.slot i, (s.positionsBelow i).map fun j => (j, s.slot j), s.popped i k, ?_,
        attempt_pop_some hseek, wellFormed_popped hs hpos htomb, ?_⟩
      · simp [layout, sheet, positions, hpos]
      · simp only [layout, sheet, positions, positionsBelow_popped]
        rfl

theorem peek_cases (s : Stack α) :
    s.toList = [] ∧ attempt peek s = (.error .underflow, s) ∨
    ∃ v rest, s.toList = v :: rest ∧ attempt peek s = (.ok v, s) := by
  cases hl : s.toList with
  | nil => exact .inl ⟨rfl, attempt_peek_none (by rw [peek?_eq_head?, hl]; rfl)⟩
  | cons v rest =>
    exact .inr ⟨v, rest, rfl, attempt_peek_some (by rw [peek?_eq_head?, hl]; rfl)⟩

/-- A pop answers with the head of the list, and so does a peek. -/
theorem answer_pop (hs : s.WellFormed) :
    (attempt pop s).1 = match s.toList with | v :: _ => .ok v | [] => .error .underflow := by
  rw [← elements_layout, Sheet.elements]
  rcases pop_cases hs with ⟨hcells, h⟩ | ⟨i, v, rest, t, hcells, h, -⟩ <;> rw [h, hcells] <;> rfl

theorem answer_peek (s : Stack α) :
    (attempt peek s).1 = match s.toList with | v :: _ => .ok v | [] => .error .underflow := by
  rcases peek_cases s with ⟨hlist, h⟩ | ⟨v, rest, hlist, h⟩ <;> rw [h, hlist]

/-! ### Clear, save and restore -/

theorem saved_layout_of_some {p : Snapshot} (h : s.snapshot = some p) :
    s.layout.saved = some (s.rollback p).sheet := by
  simp [layout, h]

theorem clear_cases (s : Stack α) :
    (∃ r, s.layout.saved = some r) ∧ attempt clear s = (.error .clearWhileSaved, s) ∨
    s.layout.saved = none ∧ attempt clear s = (.ok (), s.reset) := by
  cases h : s.snapshot with
  | some p =>
    exact .inl ⟨⟨_, saved_layout_of_some h⟩, attempt_clear_saved (hasSnapshot_of_some h)⟩
  | none =>
    exact .inr ⟨saved_layout_eq_none.mpr h, attempt_clear_unsaved (hasSnapshot_of_none h)⟩

omit [BEq α] in
theorem bypassed_marked (h : s.snapshot = none) (i : Nat) : s.marked.bypassed i = s.bypassed i := by
  rw [bypassed_of_unsaved h, bypassed_of_saved (p := ⟨s.top, s.top, s.dead⟩) rfl]
  by_cases hi : i < s.top <;> simp [hi]

omit [BEq α] in
theorem Ordered.marked (hs : s.Ordered) : s.marked.Ordered where
  top_le := hs.top_le
  jump_le := by rintro p ⟨⟩; exact Nat.le_refl _
  save_le := by rintro p ⟨⟩; exact hs.top_le
  top_lt_jump := by rintro p ⟨⟩ hlt; exact hlt

theorem tombstonesBelow_marked (h : s.snapshot = none) (n : Nat) :
    s.marked.tombstonesBelow n = s.tombstonesBelow n :=
  tombstonesBelow_congr (fun i _ => bypassed_marked h i) fun _ _ => rfl

theorem wellFormed_marked (hs : s.WellFormed) (h : s.snapshot = none) : s.marked.WellFormed := by
  have hordered := hs.ordered.marked
  constructor
  · exact hordered.top_le
  · exact hs.dead_eq.trans (tombstonesBelow_marked h s.top).symm
  · intro p hp
    refine ⟨hordered.jump_le p hp, hordered.save_le p hp, hordered.top_lt_jump p hp, ?_, ?_⟩
    all_goals obtain rfl : ⟨s.top, s.top, s.dead⟩ = p := Option.some.inj hp
    · rw [rollback_marked h]
      exact hs.dead_eq
    · exact fun i hi hlt => absurd hlt (Nat.not_lt_of_le hi)

theorem layout_marked (h : s.snapshot = none) : s.marked.layout = s.layout.save := by
  have hsheet : s.marked.sheet = s.sheet := by
    refine sheet_congr rfl (fun i _ => ?_) fun _ _ _ => rfl
    rw [vacant, vacant, bypassed_marked h]
    rfl
  have hback := rollback_marked h
  simp only [layout, Layout.save, hsheet]
  change Layout.mk _ _ _ (some (s.marked.rollback _).sheet) = _
  rw [hback]
  rfl

theorem save_cases (hs : s.WellFormed) :
    (∃ r, s.layout.saved = some r) ∧ attempt save s = (.error .savedTwice, s) ∨
    s.layout.saved = none ∧ ∃ t, attempt save s = (.ok (), t) ∧ t.WellFormed ∧
      t.layout = s.layout.save := by
  cases h : s.snapshot with
  | some p => exact .inl ⟨⟨_, saved_layout_of_some h⟩, attempt_save_saved h⟩
  | none =>
    exact .inr ⟨saved_layout_eq_none.mpr h, s.marked, attempt_save_unsaved h,
      wellFormed_marked hs h, layout_marked h⟩

theorem wellFormed_rollback {p : Snapshot} (hp : s.Fits p) : (s.rollback p).WellFormed where
  top_le := hp.save_le
  dead_eq := hp.dead_eq
  fits := by intro q hq; cases hq

theorem restore_cases (hs : s.WellFormed) :
    s.layout.saved = none ∧ attempt restore s = (.error .restoreUnsaved, s) ∨
    ∃ r t, s.layout.saved = some r ∧ attempt restore s = (.ok (), t) ∧ t.WellFormed ∧
      t.layout = { s.layout with now := r, saved := none } := by
  cases h : s.snapshot with
  | none => exact .inl ⟨saved_layout_eq_none.mpr h, attempt_restore_unsaved h⟩
  | some p =>
    exact .inr ⟨(s.rollback p).sheet, s.rollback p, saved_layout_of_some h,
      attempt_restore_saved h, wellFormed_rollback (hs.fits p h), rfl⟩

/-! ### Forget -/

section Committed
variable {p : Snapshot} (hs : s.WellFormed) (hnull : (s.null == s.null) = true)
  (hp : s.snapshot = some p)
include hp hnull

theorem isNull_slot_committed (i : Nat) :
    ((s.committed p).slot i == s.null) = s.vacant i := by
  rw [slot_committed, vacant, bypassed_of_saved hp]
  by_cases hj : p.jump ≤ i <;> by_cases hi : i < p.save <;> simp [hj, hi, hnull]

theorem vacant_committed (i : Nat) : (s.committed p).vacant i = s.vacant i := by
  rw [← isNull_slot_committed hnull hp i, vacant, bypassed_of_unsaved rfl, Bool.false_or]
  rfl

theorem tombstonesBelow_committed (n : Nat) :
    (s.committed p).tombstonesBelow n = s.tombstonesBelow n + s.bypassedBelow n := by
  have h := s.length_positionsBelow n
  have h' := (s.committed p).length_positionsBelow n
  rw [bypassedBelow_of_unsaved rfl,
    positionsBelow_congr fun i _ => vacant_committed hnull hp i] at h'
  omega

include hs

theorem wellFormed_committed : (s.committed p).WellFormed := by
  have hfit := hs.fits p hp
  have hjump := hfit.jump_le
  have htop := hfit.top_lt_jump
  constructor
  · rw [capacity_committed]
    exact hs.top_le
  · change (if p.save ≤ s.top then s.dead + (p.save - p.jump) else s.dead) =
      (s.committed p).tombstonesBelow s.top
    -- the bypassed slots below the top have become tombstones
    rw [tombstonesBelow_committed hnull hp, bypassedBelow_of_saved hp hjump, ← hs.dead_eq]
    split <;> omega
  · intro q hq
    cases hq

omit hs in
theorem layout_committed : (s.committed p).layout = s.layout.forget := by
  have hsheet : (s.committed p).sheet = s.sheet := by
    refine sheet_congr rfl (fun i _ => vacant_committed hnull hp i) fun i _ hvac => ?_
    rw [vacant_committed hnull hp, vacant] at hvac
    exact slot_committed_of_kept hp (Bool.or_eq_false_iff.mp hvac).1
  rw [layout, hsheet, capacity_committed]
  rfl

end Committed

theorem forget_cases (hs : s.WellFormed) (hnull : (s.null == s.null) = true) :
    s.layout.saved = none ∧ attempt forget s = (.error .forgetUnsaved, s) ∨
    ∃ r t, s.layout.saved = some r ∧ attempt forget s = (.ok (), t) ∧ t.WellFormed ∧
      t.layout = s.layout.forget := by
  cases h : s.snapshot with
  | none => exact .inl ⟨saved_layout_eq_none.mpr h, attempt_forget_unsaved h⟩
  | some p =>
    exact .inr ⟨(s.rollback p).sheet, s.committed p, saved_layout_of_some h,
      attempt_forget_saved h, wellFormed_committed hs hnull h, layout_committed hnull h⟩

end Stack
end Narrative
