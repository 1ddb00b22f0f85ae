import Narrative.Proofs.Stack.Plain

/-! A cursor against an iterator. The iterator searches on from a bound of its own, while the cursor
checks at every step that it still points into the region of the stack; from there both find the
elements in the same order, each one once, and a cursor that has passed the bottom starts over. -/
namespace Narrative
namespace Stack
variable {α : Type}

/-- The slot lies below the top, and not between the jump and a save that the top has reached. -/
def InRegion (s : Stack α) (i : Nat) : Prop :=
  i < s.top ∧ ∀ p, s.snapshot = some p → p.save ≤ s.top → i < p.jump ∨ p.save ≤ i

/-- The element in the slot found and a cursor parked there, or no element and a fresh cursor. -/
def handOut (s : Stack α) (found : Option Nat) : Option α × Cursor := (found.map s.slot, ⟨found⟩)

/-- The slots below the top that are not bypassed are those of the region: a top below the save lies
below the jump too. -/
theorem reachable_iff {s : Stack α} (hs : s.Ordered) {i : Nat} :
    s.reachable i = true ↔ s.InRegion i := by
  rw [reachable, InRegion, Bool.and_eq_true, decide_eq_true_eq, Bool.not_eq_true']
  refine and_congr_right fun hi => ?_
  cases hp : s.snapshot with
  | none => simp [bypassed_of_unsaved hp]
  | some p =>
    have htop := hs.top_lt_jump p hp
    rw [bypassed_of_saved hp]
    constructor
    · rintro h q ⟨⟩ -
      by_cases hj : p.jump ≤ i
      · exact .inr (by simpa [hj] using h)
      · exact .inl (Nat.lt_of_not_le hj)
    · intro h
      have hout := h p rfl
      rw [Bool.and_eq_false_iff, decide_eq_false_iff_not, decide_eq_false_iff_not]
      omega

theorem resume_of_inRegion {s : Stack α} (hs : s.Ordered) {c : Cursor} {i : Nat}
    (hc : c.position = some i) (hi : s.InRegion i) : s.resume c = i := by
  simp [resume, hc, (reachable_iff hs).mpr hi]

theorem resume_of_outside {s : Stack α} (hs : s.Ordered) {c : Cursor}
    (hc : ∀ i, c.position = some i → ¬ s.InRegion i) : s.resume c = s.top := by
  cases hi : c.position with
  | none => simp [resume, hi]
  | some i => simp [resume, hi, mt (reachable_iff hs).mp (hc i hi)]

variable [BEq α]

/-! ### Positions below a position -/

theorem mem_positions_iff {s : Stack α} (hs : s.Ordered) {i : Nat} :
    i ∈ s.positions ↔ s.InRegion i ∧ (s.slot i == s.null) = false := by
  rw [← reachable_iff hs, positions, mem_positionsBelow, reachable]
  simp [and_assoc]

/-- The search from a lower position finds what the walk from a higher one meets below it. -/
theorem positionsBelow_eq_filter (s : Stack α) {m n : Nat} (h : n ≤ m) :
    s.positionsBelow n = (s.positionsBelow m).filter (· < n) := by
  induction m with
  | zero => simp [Nat.le_zero.mp h, positionsBelow]
  | succ m ih =>
    rcases Nat.lt_or_eq_of_le h with hlt | rfl
    · have hm : ¬ m < n := by omega
      rw [positionsBelow_succ, ih (Nat.le_of_lt_succ hlt)]
      split <;> simp [hm]
    · symm
      rw [List.filter_eq_self]
      intro i hi
      simpa using (mem_positionsBelow_iff.mp hi).1

theorem below_eq_find? (s : Stack α) {n : Nat} (h : n ≤ s.top) :
    s.below n = s.positions.find? (· < n) := by
  rw [below_eq_head?, s.positionsBelow_eq_filter h, List.head?_filter, positions]

/-- Below an element that a search has found, it goes on with the rest of what it had to find. -/
theorem positionsBelow_of_cons {s : Stack α} {n i : Nat} {rest : List Nat}
    (h : s.positionsBelow n = i :: rest) : s.positionsBelow i = rest := by
  have hbelow : s.below n = some i := by
    rw [below_eq_head?, h]
    rfl
  cases hseek : s.seekBelow n with
  | mk found k =>
    obtain rfl : found = some i := by simpa [below, hseek] using hbelow
    have hcons := (seekBelow_some hseek).1
    rw [h] at hcons
    exact (List.cons.inj hcons).2.symm

theorem positionsBelow_of_append {s : Stack α} {n i : Nat} {above below : List Nat}
    (h : s.positionsBelow n = above ++ i :: below) : s.positionsBelow i = below := by
  induction above generalizing n with
  | nil => exact positionsBelow_of_cons h
  | cons j above ih => exact ih (positionsBelow_of_cons h)

/-! ### One step -/

theorem step_eq_handOut (s : Stack α) (c : Cursor) : s.step c = s.handOut (s.below (s.resume c)) := by
  rw [step]
  cases s.below (s.resume c) <;> rfl

theorem step_of_inRegion {s : Stack α} (hs : s.Ordered) {c : Cursor} {i : Nat}
    (hc : c.position = some i) (hi : s.InRegion i) :
    s.step c = s.handOut (s.positions.find? (· < i)) := by
  rw [step_eq_handOut, resume_of_inRegion hs hc hi, s.below_eq_find? (Nat.le_of_lt hi.1)]

theorem step_of_outside {s : Stack α} (hs : s.Ordered) {c : Cursor}
    (hc : ∀ i, c.position = some i → ¬ s.InRegion i) : s.step c = s.handOut s.positions.head? := by
  rw [step_eq_handOut, resume_of_outside hs hc, below_eq_head?, positions]

/-! ### Steps in turn -/

/-- What so many steps in turn hand out, each from where the one before has left the cursor. -/
def steps (s : Stack α) : Nat → Cursor → List (Option α × Cursor)
  | 0, _ => []
  | n + 1, c => s.step c :: s.steps n (s.step c).2

def iterate (s : Stack α) : Nat → Iterator → List (Option α)
  | 0, _ => []
  | n + 1, it => (s.next it).1 :: s.iterate n (s.next it).2

/-- Every element from the top down with the cursor parked on it, and then nothing. -/
def round (s : Stack α) : List (Option α × Cursor) :=
  s.positions.map (fun i => s.handOut (some i)) ++ [s.handOut none]

theorem iterate_exhausted (s : Stack α) (n : Nat) :
    s.iterate n ⟨none⟩ = List.replicate n none := by
  induction n with
  | zero => rfl
  | succ n ih => simpa [iterate, next, List.replicate_succ] using ih

theorem iterate_positionsBelow (s : Stack α) (n : Nat) {l : List Nat} {m : Nat}
    (hl : s.positionsBelow m = l) :
    s.iterate (l.length + n) ⟨some m⟩ =
      l.map (fun i => some (s.slot i)) ++ List.replicate n none := by
  induction l generalizing m with
  | nil =>
    have hm : s.below m = none := by rw [below_eq_head?, hl]; rfl
    cases n with
    | zero => rfl
    | succ n => simp [iterate, next, hm, iterate_exhausted, List.replicate_succ]
  | cons i rest ih =>
    have hm : s.below m = some i := by rw [below_eq_head?, hl]; rfl
    have hrest := ih (positionsBelow_of_cons hl)
    rw [List.length_cons, Nat.add_right_comm]
    simp [iterate, next, hm, hrest]

theorem resume_parked {s : Stack α} {n i : Nat} (hn : n ≤ s.top) (hi : i ∈ s.positionsBelow n) :
    s.resume ⟨some i⟩ = i := by
  obtain ⟨hlt, hb, -⟩ := mem_positionsBelow.mp hi
  have htop : i < s.top := by omega
  simp [resume, reachable, htop, hb]

/-- The steps down to the bottom and the one past it, after which the cursor is fresh. -/
theorem steps_down (s : Stack α) (n : Nat) {l : List Nat} {c : Cursor}
    (hl : s.positionsBelow (s.resume c) = l) :
    s.steps (l.length + 1 + n) c =
      l.map (fun i => s.handOut (some i)) ++ s.handOut none :: s.steps n {} := by
  induction l generalizing c with
  | nil =>
    have hstep : s.step c = s.handOut none := by
      rw [step_eq_handOut, below_eq_head?, hl]
      rfl
    rw [List.length_nil, Nat.zero_add, Nat.add_comm 1 n, steps, hstep]
    rfl
  | cons i rest ih =>
    have hstep : s.step c = s.handOut (some i) := by
      rw [step_eq_handOut, below_eq_head?, hl]
      rfl
    have hrest : s.positionsBelow (s.resume ⟨some i⟩) = rest := by
      have hmem : i ∈ s.positionsBelow (s.resume c) := by rw [hl]; exact List.mem_cons_self
      rw [resume_parked (s.resume_le_top c) hmem, positionsBelow_of_cons hl]
    have hlen : (i :: rest).length + 1 + n = rest.length + 1 + n + 1 := by
      rw [List.length_cons]
      omega
    rw [hlen, steps, hstep, List.map_cons, List.cons_append]
    exact congrArg _ (ih hrest)

theorem steps_rounds (s : Stack α) (n : Nat) :
    s.steps (n * (s.positions.length + 1)) {} = (List.replicate n s.round).flatten := by
  induction n with
  | zero => simp [steps]
  | succ n ih =>
    have hround := s.steps_down (n * (s.positions.length + 1)) (c := {}) (l := s.positions) rfl
    have hlen : (n + 1) * (s.positions.length + 1) =
        s.positions.length + 1 + n * (s.positions.length + 1) := by
      rw [Nat.succ_mul, Nat.add_comm]
    rw [hlen, hround, ih, List.replicate_succ, List.flatten_cons, round]
    simp

/-! ### Histories -/

/-- In every history, and wherever a cursor was left by then: from a slot of the region a step hands
out the first element that an iteration meets below that slot, and from anywhere else the first element
of the iteration. So the steps of a fresh cursor hand out what an iterator does, each element from a
lower position than the last, then nothing, and then the same again. -/
theorem steps_follow_iteration {null : α} (hnull : (null == null) = true) (slots : Array α)
    (ops : List (Op α)) :
    let s := (attempts Op.perform ops (ofSlots slots null)).2
    (∀ i, i ∈ s.positions ↔ s.InRegion i ∧ (s.slot i == null) = false) ∧
    s.positions.Pairwise (· > ·) ∧ s.positions.length = s.size ∧
    (∀ n, s.iterate (s.size + n) s.iterator = s.toList.map some ++ List.replicate n none) ∧
    (∀ c i, c.position = some i → s.InRegion i →
      s.step c = s.handOut (s.positions.find? (· < i))) ∧
    (∀ c, (∀ i, c.position = some i → ¬ s.InRegion i) → s.step c = s.handOut s.positions.head?) ∧
    ∀ n, s.steps (n * (s.size + 1)) {} = (List.replicate n s.round).flatten := by
  intro s
  have hs : s.Sound slots.size null := sound_attempts hnull slots ops
  have hordered := hs.wellFormed.ordered
  have hsize : s.size = s.positions.length := by
    rw [size_eq_length hs.wellFormed, toList, List.length_map]
  rw [hsize]
  refine ⟨fun i => ?_, s.pairwise_positionsBelow s.top, rfl, fun n => ?_, ?_, ?_, s.steps_rounds⟩
  · rw [mem_positions_iff hordered, hs.null_eq]
  · rw [toList, List.map_map]
    exact s.iterate_positionsBelow n rfl
  · exact fun c i => step_of_inRegion hordered
  · exact fun c => step_of_outside hordered

/-- Two of three elements are popped while saved and one is pushed past them. -/
def pushPastTwo : List (Op Nat) :=
  [.push 1, .push 2, .push 3, .control .save, .pop, .pop, .push 4]

/-- A cursor left among the bypassed slots starts over, and one at the save hops over them. -/
theorem pushPastTwo_steps :
    let s : Stack Nat := ⟨#[1, 2, 3, 4, 9], 0, 4, 0, some ⟨3, 1, 0⟩⟩
    ((0 : Nat) == 0) = true ∧ s.InRegion 3 ∧ (∀ i, some 1 = some i → ¬ s.InRegion i) ∧
    s.step ⟨some 3⟩ = (some 1, ⟨some 0⟩) ∧ s.step ⟨some 1⟩ = (some 4, ⟨some 3⟩) ∧
    s.steps 6 {} = [(some 4, ⟨some 3⟩), (some 1, ⟨some 0⟩), (none, {}), (some 4, ⟨some 3⟩),
      (some 1, ⟨some 0⟩), (none, {})] := by
  intro s
  have hrun : (attempts Op.perform pushPastTwo (ofSlots (Array.replicate 5 9) 0)).2 = s := by rfl
  have h := steps_follow_iteration (show ((0 : Nat) == 0) = true from rfl) (Array.replicate 5 9)
    pushPastTwo
  rw [hrun] at h
  obtain ⟨-, -, -, -, hinside, houtside, hrounds⟩ := h
  have hin : s.InRegion 3 := ⟨by decide, by rintro p ⟨⟩ -; exact .inr (Nat.le_refl 3)⟩
  have hout : ∀ i, some 1 = some i → ¬ s.InRegion i := by
    rintro i ⟨⟩ ⟨-, h⟩
    exact absurd (h _ rfl (by decide)) (by decide)
  exact ⟨rfl, hin, hout, hinside ⟨some 3⟩ 3 rfl hin, houtside ⟨some 1⟩ hout, hrounds 2⟩

end Stack
end Narrative
