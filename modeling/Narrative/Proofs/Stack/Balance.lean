import Narrative.Proofs.Stack.Region

/-! The counters of a stack against its row of slots: how the top, the jump and the save lie to each
other, and that the tombstones counted are the null slots in the parts of the row that are on the
stack, now and after a restore. -/
namespace Narrative
namespace Stack
variable {α : Type} [BEq α]

/-- The null slots from one position up to another. -/
def nullsBetween (s : Stack α) (a b : Nat) : Nat := (s.slots.extract a b).countP (· == s.null)

/-- The null slots on the stack. A top above the save has the bypassed slots below it. -/
def nullsOnStack (s : Stack α) : Nat :=
  match s.snapshot with
  | some p =>
    if s.top < p.save then s.nullsBetween 0 s.top
    else s.nullsBetween 0 p.jump + s.nullsBetween p.save s.top
  | none => s.nullsBetween 0 s.top

structure BalancedSave (s : Stack α) (p : Snapshot) : Prop where
  jump_le : p.jump ≤ p.save
  save_le : p.save ≤ s.capacity
  /-- The top never rests among the bypassed slots. -/
  top_lt_jump : s.top < p.save → s.top < p.jump
  /-- What was pushed since the save is no tombstone. -/
  fresh : ∀ i, p.save ≤ i → i < s.top → (s.slot i == s.null) = false
  dead_eq : p.dead = s.nullsBetween 0 p.save

structure Balanced (s : Stack α) : Prop where
  top_le : s.top ≤ s.capacity
  dead_eq : s.dead = s.nullsOnStack
  saved : ∀ p, s.snapshot = some p → s.BalancedSave p

variable {s : Stack α}

theorem nullsBetween_self (a : Nat) : s.nullsBetween a a = 0 := by
  rw [nullsBetween, Array.extract_empty_of_stop_le_start (Nat.le_refl a)]
  rfl

theorem nullsBetween_succ {a n : Nat} (ha : a ≤ n) (hn : n < s.capacity) :
    s.nullsBetween a (n + 1) =
      s.nullsBetween a n + if s.slot n == s.null then 1 else 0 := by
  have hsize : n < s.slots.size := hn
  have hslot : s.slot n = s.slots[n] := by simp [slot, hsize]
  rw [nullsBetween, Array.extract_succ_right (Nat.lt_succ_of_le ha) hsize, Array.countP_push, hslot]
  rfl

/-- Where no slot is bypassed, every null slot is a tombstone. -/
theorem tombstonesBelow_eq_add {m n : Nat} (hmn : m ≤ n) (hn : n ≤ s.capacity)
    (hb : ∀ i, m ≤ i → i < n → s.bypassed i = false) :
    s.tombstonesBelow n = s.tombstonesBelow m + s.nullsBetween m n := by
  induction n with
  | zero => rw [Nat.le_zero.mp hmn, nullsBetween_self, Nat.add_zero]
  | succ n ih =>
    rcases Nat.lt_or_eq_of_le hmn with hlt | rfl
    · have hle := Nat.le_of_lt_succ hlt
      have hrest := ih hle (Nat.le_of_succ_le hn) fun i hi hin => hb i hi (Nat.lt_succ_of_lt hin)
      rw [tombstonesBelow_succ, hrest, hb n hle (Nat.lt_succ_self n), nullsBetween_succ hle hn]
      simp [Nat.add_assoc]
    · rw [nullsBetween_self]
      rfl

theorem tombstonesBelow_eq_nullsBetween {n : Nat} (hn : n ≤ s.capacity)
    (hb : ∀ i, i < n → s.bypassed i = false) : s.tombstonesBelow n = s.nullsBetween 0 n := by
  have h := tombstonesBelow_eq_add (Nat.zero_le n) hn fun i _ hi => hb i hi
  simpa [tombstonesBelow] using h

theorem WellFormed.dead_eq_nullsOnStack (hs : s.WellFormed) : s.dead = s.nullsOnStack := by
  have htop := hs.top_le
  rw [hs.dead_eq, nullsOnStack]
  cases hp : s.snapshot with
  | none => exact tombstonesBelow_eq_nullsBetween htop fun i _ => bypassed_of_unsaved hp i
  | some p =>
    have hfit := hs.fits p hp
    have hjump := hfit.jump_le
    have hbypassed := bypassed_of_saved hp
    dsimp only
    by_cases hlt : s.top < p.save
    · have hbelow := hfit.top_lt_jump hlt
      rw [if_pos hlt]
      refine tombstonesBelow_eq_nullsBetween htop fun i hi => ?_
      simp [hbypassed, show ¬ p.jump ≤ i by omega]
    · have hsave : p.save ≤ s.top := Nat.le_of_not_lt hlt
      rw [if_neg hlt]
      calc
        s.tombstonesBelow s.top = s.tombstonesBelow p.save + s.nullsBetween p.save s.top := by
          refine tombstonesBelow_eq_add hsave htop fun i hi _ => ?_
          simp [hbypassed, Nat.not_lt_of_le hi]
        _ = s.tombstonesBelow p.jump + s.nullsBetween p.save s.top := by
          rw [tombstonesBelow_of_bypassed hjump fun i hi hlt => by simp [hbypassed, hi, hlt]]
        _ = s.nullsBetween 0 p.jump + s.nullsBetween p.save s.top := by
          rw [tombstonesBelow_eq_nullsBetween (Nat.le_trans hjump hfit.save_le) fun i hi => by
            simp [hbypassed, Nat.not_le_of_lt hi]]

theorem WellFormed.balanced (hs : s.WellFormed) : s.Balanced where
  top_le := hs.top_le
  dead_eq := hs.dead_eq_nullsOnStack
  saved p hp := by
    have hfit := hs.fits p hp
    refine ⟨hfit.jump_le, hfit.save_le, hfit.top_lt_jump, hfit.fresh, hfit.dead_eq.trans ?_⟩
    -- after a restore no slot is bypassed
    exact tombstonesBelow_eq_nullsBetween (s := s.rollback p) hfit.save_le
      fun i _ => bypassed_of_unsaved rfl i

end Stack
end Narrative
