import Narrative.Stack.Operations

/-! The region of a stack: the slots below the top that are not bypassed. Each of them holds an
element or a tombstone, and a stack is well formed if its tombstones are counted right, now and after
a restore. -/
namespace Narrative
namespace Stack
variable {α : Type}

def rollback (s : Stack α) (p : Snapshot) : Stack α :=
  { s with top := p.save, dead := p.dead, snapshot := none }

def bypassedBelow (s : Stack α) (n : Nat) : Nat := (List.range n).countP s.bypassed

theorem bypassed_of_unsaved {s : Stack α} (h : s.snapshot = none) (i : Nat) :
    s.bypassed i = false := by
  simp [bypassed, h]

theorem bypassed_of_saved {s : Stack α} {p : Snapshot} (h : s.snapshot = some p) (i : Nat) :
    s.bypassed i = (decide (p.jump ≤ i) && decide (i < p.save)) := by
  simp [bypassed, h]

theorem bypassedBelow_succ (s : Stack α) (i : Nat) :
    s.bypassedBelow (i + 1) = s.bypassedBelow i + if s.bypassed i then 1 else 0 := by
  simp [bypassedBelow, List.range_succ, List.countP_append, List.countP_singleton]

theorem bypassedBelow_of_unsaved {s : Stack α} (h : s.snapshot = none) (n : Nat) :
    s.bypassedBelow n = 0 := by
  simp [bypassedBelow, List.countP_eq_zero, bypassed_of_unsaved h]

theorem bypassedBelow_of_saved {s : Stack α} {p : Snapshot} (h : s.snapshot = some p)
    (hp : p.jump ≤ p.save) (n : Nat) :
    s.bypassedBelow n = min n p.save - min n p.jump := by
  induction n with
  | zero => simp [bypassedBelow]
  | succ n ih =>
    rw [bypassedBelow_succ, ih, bypassed_of_saved h]
    by_cases hj : p.jump ≤ n <;> by_cases hs : n < p.save <;> simp [hj, hs] <;> omega

/-- The top and the snapshot lie in the row as pushes, pops and relocations leave them. -/
structure Ordered (s : Stack α) : Prop where
  top_le : s.top ≤ s.capacity
  jump_le : ∀ p, s.snapshot = some p → p.jump ≤ p.save
  save_le : ∀ p, s.snapshot = some p → p.save ≤ s.capacity
  top_lt_jump : ∀ p, s.snapshot = some p → s.top < p.save → s.top < p.jump

variable [BEq α]

/-- Nothing of the stack lies in the slot: it is bypassed or a tombstone. -/
def vacant (s : Stack α) (i : Nat) : Bool := s.bypassed i || s.slot i == s.null

/-- The tombstones below a position, those in bypassed slots left out. -/
def tombstonesBelow (s : Stack α) (n : Nat) : Nat :=
  (List.range n).countP fun i => !s.bypassed i && s.slot i == s.null

/-- The snapshot lies on the stack as pushes, pops and relocations leave it. -/
structure Fits (s : Stack α) (p : Snapshot) : Prop where
  jump_le : p.jump ≤ p.save
  save_le : p.save ≤ s.capacity
  top_lt_jump : s.top < p.save → s.top < p.jump
  dead_eq : p.dead = (s.rollback p).tombstonesBelow p.save
  fresh : ∀ i, p.save ≤ i → i < s.top → (s.slot i == s.null) = false

structure WellFormed (s : Stack α) : Prop where
  top_le : s.top ≤ s.capacity
  dead_eq : s.dead = s.tombstonesBelow s.top
  fits : ∀ p, s.snapshot = some p → s.Fits p

theorem WellFormed.ordered {s : Stack α} (hs : s.WellFormed) : s.Ordered where
  top_le := hs.top_le
  jump_le p hp := (hs.fits p hp).jump_le
  save_le p hp := (hs.fits p hp).save_le
  top_lt_jump p hp := (hs.fits p hp).top_lt_jump

omit [BEq α] in
theorem Ordered.of_unsaved {s : Stack α} (htop : s.top ≤ s.capacity) (h : s.snapshot = none) :
    s.Ordered := by
  refine ⟨htop, fun p hp => ?_, fun p hp => ?_, fun p hp => ?_⟩ <;> simp [h] at hp

/-- As many tombstones are counted as there are, or more, now and after a restore. -/
structure Bounded (s : Stack α) : Prop extends s.Ordered where
  tombstones_le : s.tombstonesBelow s.top ≤ s.dead
  saved_tombstones_le :
    ∀ p, s.snapshot = some p → (s.rollback p).tombstonesBelow p.save ≤ p.dead

theorem WellFormed.bounded {s : Stack α} (hs : s.WellFormed) : s.Bounded where
  toOrdered := hs.ordered
  tombstones_le := Nat.le_of_eq hs.dead_eq.symm
  saved_tombstones_le p hp := Nat.le_of_eq (hs.fits p hp).dead_eq.symm

theorem positionsBelow_succ (s : Stack α) (i : Nat) :
    s.positionsBelow (i + 1) =
      if s.vacant i then s.positionsBelow i else i :: s.positionsBelow i := rfl

theorem tombstonesBelow_succ (s : Stack α) (i : Nat) :
    s.tombstonesBelow (i + 1) =
      s.tombstonesBelow i + if !s.bypassed i && s.slot i == s.null then 1 else 0 := by
  simp [tombstonesBelow, List.range_succ, List.countP_append, List.countP_singleton]

theorem mem_positionsBelow_iff {s : Stack α} {n i : Nat} :
    i ∈ s.positionsBelow n ↔ i < n ∧ s.vacant i = false := by
  simp [mem_positionsBelow, vacant]

theorem Ordered.lt_capacity {s : Stack α} (hs : s.Ordered) {i : Nat} (hi : i ∈ s.positions) :
    i < s.capacity :=
  Nat.lt_of_lt_of_le (mem_positionsBelow_iff.mp hi).1 hs.top_le

theorem WellFormed.lt_capacity {s : Stack α} (hs : s.WellFormed) {i : Nat} (hi : i ∈ s.positions) :
    i < s.capacity :=
  hs.ordered.lt_capacity hi

theorem nodup_positions (s : Stack α) : s.positions.Nodup :=
  (pairwise_positionsBelow s s.top).imp fun hgt => Nat.ne_of_gt hgt

/-! ### What the searches depend on -/

theorem positionsBelow_congr {s t : Stack α} {n : Nat}
    (h : ∀ i, i < n → s.vacant i = t.vacant i) : s.positionsBelow n = t.positionsBelow n := by
  induction n with
  | zero => rfl
  | succ n ih =>
    rw [positionsBelow_succ, positionsBelow_succ, h n (Nat.lt_succ_self n),
      ih fun i hi => h i (Nat.lt_succ_of_lt hi)]

theorem tombstonesBelow_congr {s t : Stack α} {n : Nat}
    (hb : ∀ i, i < n → s.bypassed i = t.bypassed i)
    (hn : ∀ i, i < n → (s.slot i == s.null) = (t.slot i == t.null)) :
    s.tombstonesBelow n = t.tombstonesBelow n := by
  refine List.countP_congr fun i hi => ?_
  have hin := List.mem_range.mp hi
  rw [hb i hin, hn i hin]

theorem positionsBelow_of_bypassed {s : Stack α} {m n : Nat} (hmn : m ≤ n)
    (h : ∀ i, m ≤ i → i < n → s.bypassed i = true) : s.positionsBelow n = s.positionsBelow m := by
  induction n with
  | zero => rw [Nat.le_zero.mp hmn]
  | succ n ih =>
    rcases Nat.lt_or_eq_of_le hmn with hlt | rfl
    · have hb := h n (Nat.le_of_lt_succ hlt) (Nat.lt_succ_self n)
      rw [positionsBelow_succ, vacant, hb]
      exact ih (Nat.le_of_lt_succ hlt) fun i hi hin => h i hi (Nat.lt_succ_of_lt hin)
    · rfl

theorem tombstonesBelow_of_bypassed {s : Stack α} {m n : Nat} (hmn : m ≤ n)
    (h : ∀ i, m ≤ i → i < n → s.bypassed i = true) :
    s.tombstonesBelow n = s.tombstonesBelow m := by
  induction n with
  | zero => rw [Nat.le_zero.mp hmn]
  | succ n ih =>
    rcases Nat.lt_or_eq_of_le hmn with hlt | rfl
    · have hb := h n (Nat.le_of_lt_succ hlt) (Nat.lt_succ_self n)
      rw [tombstonesBelow_succ, hb, ih (Nat.le_of_lt_succ hlt) fun i hi hin =>
        h i hi (Nat.lt_succ_of_lt hin)]
      rfl
    · rfl

theorem seekBelow_of_bypassed {s : Stack α} {m n : Nat} (hmn : m ≤ n)
    (h : ∀ i, m ≤ i → i < n → s.bypassed i = true) : s.seekBelow n = s.seekBelow m := by
  induction n with
  | zero => rw [Nat.le_zero.mp hmn]
  | succ n ih =>
    rcases Nat.lt_or_eq_of_le hmn with hlt | rfl
    · have hb := h n (Nat.le_of_lt_succ hlt) (Nat.lt_succ_self n)
      rw [seekBelow, if_pos hb]
      exact ih (Nat.le_of_lt_succ hlt) fun i hi hin => h i hi (Nat.lt_succ_of_lt hin)
    · rfl

/-! ### Counting -/

/-- Every slot below a position holds an element, holds a tombstone or is bypassed. -/
theorem length_positionsBelow (s : Stack α) (n : Nat) :
    (s.positionsBelow n).length + s.tombstonesBelow n + s.bypassedBelow n = n := by
  induction n with
  | zero => rfl
  | succ n ih =>
    rw [positionsBelow_succ, tombstonesBelow_succ, bypassedBelow_succ, vacant]
    cases s.bypassed n <;> cases (s.slot n == s.null) <;> simp <;> omega

theorem size_eq_length {s : Stack α} (h : s.WellFormed) : s.size = s.toList.length := by
  have hcount := s.length_positionsBelow s.top
  have hdead := h.dead_eq
  have hlen : s.toList.length = (s.positionsBelow s.top).length := by simp [toList, positions]
  cases hs : s.snapshot with
  | none =>
    rw [bypassedBelow_of_unsaved hs] at hcount
    simp only [size, hs, wordSub]
    rw [if_pos (by omega)]
    omega
  | some p =>
    have hp := h.fits p hs
    rw [bypassedBelow_of_saved hs hp.jump_le] at hcount
    have hjump := hp.jump_le
    have htop := hp.top_lt_jump
    simp only [size, hs, wordSub]
    -- a top below the save lies below the jump, where no slot is bypassed
    by_cases hle : p.save ≤ s.top
    · rw [if_pos hle, if_pos (by omega)]
      omega
    · rw [if_neg hle, if_pos (by omega)]
      omega

/-- A search that finds an element passes the tombstones above it. -/
theorem seekBelow_some {s : Stack α} {n i k : Nat} (h : s.seekBelow n = (some i, k)) :
    s.positionsBelow n = i :: s.positionsBelow i ∧
      s.tombstonesBelow n = s.tombstonesBelow i + k := by
  induction n generalizing k with
  | zero => simp [seekBelow] at h
  | succ n ih =>
    rw [positionsBelow_succ, tombstonesBelow_succ, vacant]
    by_cases hb : s.bypassed n
    · rw [seekBelow, if_pos hb] at h
      simpa [hb] using ih h
    · by_cases hn : s.slot n == s.null
      · rw [seekBelow, if_neg hb, if_pos hn] at h
        cases hr : s.seekBelow n with
        | mk found skipped =>
          rw [hr] at h
          obtain ⟨rfl, rfl⟩ : found = some i ∧ skipped + 1 = k := by simpa using h
          obtain ⟨hpos, htomb⟩ := ih hr
          simp [hb, hn, hpos, htomb, Nat.add_assoc]
      · rw [seekBelow, if_neg hb, if_neg hn] at h
        obtain ⟨rfl, rfl⟩ : n = i ∧ 0 = k := by simpa using h
        simp [hb, hn]

theorem seekBelow_none {s : Stack α} {n k : Nat} (h : s.seekBelow n = (none, k)) :
    s.positionsBelow n = [] := by
  have hbelow : s.below n = none := by simp [below, h]
  rw [below_eq_head?] at hbelow
  exact List.head?_eq_none_iff.mp hbelow

end Stack
end Narrative
