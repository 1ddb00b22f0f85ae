import Narrative.Proofs.Stack.Layout

/-! A push on a well formed stack: the slot at the frontier is written, the elements below stay where
they are, and what is saved stays as it is. -/
namespace Narrative
namespace Stack
variable {α : Type}

/-- The slots below the old top are bypassed after a push just as before. -/
theorem bypassed_pushed_of_lt {s : Stack α} (hs : s.Ordered) (v : α) {i : Nat}
    (h : i < s.top) : (s.pushed v).bypassed i = s.bypassed i := by
  cases hp : s.snapshot with
  | none => simp [bypassed, pushed, relocated, hp]
  | some p =>
    have hlt := hs.top_lt_jump p hp
    by_cases htop : s.top < p.save
    · have hi : ¬ p.jump ≤ i := by omega
      simp [bypassed, pushed, relocated, hp, htop, hi, Nat.not_le_of_gt h]
    · simp [bypassed, pushed, relocated, hp, htop]

/-- Those from the old top up to the slot written are bypassed. -/
theorem bypassed_pushed_of_le {s : Stack α} (v : α) {i : Nat} (h : s.top ≤ i)
    (hi : i < s.frontier) : (s.pushed v).bypassed i = true := by
  cases hp : s.snapshot with
  | none => simp only [frontier, hp] at hi; omega
  | some p =>
    simp only [frontier, hp] at hi
    have htop : s.top < p.save := by omega
    have hsave : i < p.save := by omega
    simp [bypassed, pushed, relocated, hp, htop, h, hsave]

theorem bypassed_pushed_frontier (s : Stack α) (v : α) :
    (s.pushed v).bypassed s.frontier = false := by
  cases hp : s.snapshot with
  | none => simp [bypassed, pushed, relocated, hp]
  | some p =>
    have hfront : ¬ s.frontier < p.save := Nat.not_lt_of_le (save_le_frontier hp)
    by_cases htop : s.top < p.save <;> simp [bypassed, pushed, relocated, hp, htop, hfront]

theorem Ordered.pushed {s : Stack α} (hs : s.Ordered) (v : α) (hroom : s.frontier < s.capacity) :
    (s.pushed v).Ordered where
  top_le := by rw [capacity_pushed]; exact hroom
  jump_le q hq := by
    obtain ⟨p, hp, hsave, -, hjump⟩ := relocated_some hq
    have hle := hs.jump_le p hp
    omega
  save_le q hq := by
    obtain ⟨p, hp, hsave, -⟩ := relocated_some hq
    rw [capacity_pushed, hsave]
    exact hs.save_le p hp
  top_lt_jump q hq hlt := by
    -- the new top lies above the frontier, which is not below the save
    obtain ⟨p, hp, hsave, -⟩ := relocated_some hq
    have hfront := save_le_frontier hp
    change s.frontier + 1 < q.save at hlt
    omega

/-- The slots that a restore would go back to are not written. -/
theorem tombstonesBelow_rollback_pushed [BEq α] {s : Stack α} (v : α) {p q : Snapshot}
    (hp : s.snapshot = some p) :
    ((s.pushed v).rollback q).tombstonesBelow p.save = (s.rollback p).tombstonesBelow p.save :=
  tombstonesBelow_rollback_congr rfl fun _ hi =>
    slot_pushed_of_lt v (Nat.lt_of_lt_of_le hi (save_le_frontier hp))

theorem tombstonesBelow_pushed [BEq α] {s : Stack α} {v : α} (hs : s.Ordered)
    (hv : (v == s.null) = false) (hroom : s.frontier < s.capacity) :
    (s.pushed v).tombstonesBelow (s.frontier + 1) = s.tombstonesBelow s.top := by
  have hold : (s.pushed v).tombstonesBelow s.top = s.tombstonesBelow s.top :=
    tombstonesBelow_congr (fun i hi => bypassed_pushed_of_lt hs v hi) fun i hi => by
      rw [slot_pushed_of_lt v (Nat.lt_of_lt_of_le hi s.top_le_frontier)]
      rfl
  have hnull : ((s.pushed v).slot s.frontier == (s.pushed v).null) = false := by
    rw [slot_pushed_frontier v hroom]
    exact hv
  rw [tombstonesBelow_succ, hnull, Bool.and_false, ← hold]
  exact tombstonesBelow_of_bypassed s.top_le_frontier fun i hi hlt => bypassed_pushed_of_le v hi hlt

section Pushed
variable [BEq α] {s : Stack α} {v : α} (hs : s.WellFormed) (hv : (v == s.null) = false)
  (hroom : s.frontier < s.capacity)
include hs hv hroom

theorem positions_pushed : (s.pushed v).positions = s.frontier :: s.positions := by
  have hvac : (s.pushed v).vacant s.frontier = false := by
    rw [vacant, bypassed_pushed_frontier, slot_pushed_frontier v hroom]
    exact hv
  have hhop := positionsBelow_of_bypassed (s := s.pushed v) s.top_le_frontier
    fun i hi hlt => bypassed_pushed_of_le v hi hlt
  have hold : (s.pushed v).positionsBelow s.top = s.positionsBelow s.top :=
    positionsBelow_congr fun i hi => by
      rw [vacant, vacant, bypassed_pushed_of_lt hs.ordered v hi,
        slot_pushed_of_lt v (Nat.lt_of_lt_of_le hi s.top_le_frontier)]
      rfl
  calc
    (s.pushed v).positions = s.frontier :: (s.pushed v).positionsBelow s.frontier := by
      change (s.pushed v).positionsBelow (s.frontier + 1) = _
      rw [positionsBelow_succ, hvac]
      rfl
    _ = s.frontier :: s.positions := by rw [hhop, hold]; rfl

theorem fits_pushed {q : Snapshot} (hq : (s.pushed v).snapshot = some q) :
    (s.pushed v).Fits q := by
  obtain ⟨p, hp, hsave, hdead, -⟩ := relocated_some hq
  have hfit := hs.fits p hp
  have hordered := hs.ordered.pushed v hroom
  refine ⟨hordered.jump_le q hq, hordered.save_le q hq, hordered.top_lt_jump q hq, ?_,
    fun i hi hlt => ?_⟩
  · rw [hsave, hdead, tombstonesBelow_rollback_pushed v hp]
    exact hfit.dead_eq
  · change i < s.frontier + 1 at hlt
    rcases Nat.lt_or_eq_of_le (Nat.le_of_lt_succ hlt) with hlt' | rfl
    · have htop : i < s.top := by
        simp only [frontier, hp] at hlt'
        omega
      rw [slot_pushed_of_lt v hlt']
      exact hfit.fresh i (hsave ▸ hi) htop
    · rw [slot_pushed_frontier v hroom]
      exact hv

theorem wellFormed_pushed : (s.pushed v).WellFormed where
  top_le := (hs.ordered.pushed v hroom).top_le
  dead_eq := hs.dead_eq.trans (tombstonesBelow_pushed hs.ordered hv hroom).symm
  fits _ hq := fits_pushed hs hv hroom hq

theorem sheet_pushed :
    (s.pushed v).sheet = ⟨s.frontier + 1, (s.frontier, v) :: s.sheet.cells⟩ := by
  have hcells : ∀ i ∈ s.positions, (i, (s.pushed v).slot i) = (i, s.slot i) := by
    intro i hi
    have hlt := (mem_positionsBelow_iff.mp hi).1
    rw [slot_pushed_of_lt v (Nat.lt_of_lt_of_le hlt s.top_le_frontier)]
  rw [sheet, positions_pushed hs hv hroom, List.map_cons, slot_pushed_frontier v hroom,
    List.map_congr_left hcells]
  rfl

omit hs hv hroom in
theorem saved_pushed (s : Stack α) (v : α) : (s.pushed v).layout.saved = s.layout.saved := by
  cases hp : s.snapshot with
  | none => simp [layout, pushed, relocated, hp]
  | some p =>
    cases hq : s.relocated with
    | none => simp [relocated, hp] at hq
    | some q =>
      obtain ⟨p', hp', hsave, -⟩ := relocated_some hq
      obtain rfl : p = p' := Option.some.inj (hp.symm.trans hp')
      have hsheet : ((s.pushed v).rollback q).sheet = (s.rollback p).sheet :=
        sheet_rollback_congr hsave rfl fun i hi =>
          slot_pushed_of_lt v (Nat.lt_of_lt_of_le (hsave ▸ hi) (save_le_frontier hp))
      have hsnap : (s.pushed v).snapshot = some q := hq
      simp [layout, hsnap, hp, hsheet]

theorem layout_pushed : (s.pushed v).layout = s.layout.push v := by
  have hsheet := sheet_pushed hs hv hroom
  have hsaved := saved_pushed s v
  rw [Layout.push, frontier_layout, ← hsaved, layout, capacity_pushed, hsheet]
  rfl

end Pushed

end Stack
end Narrative
