import Mathlib.Data.Nat.PSub
import Narrative.Proofs.Stack.Transitions
import Narrative.Stack.Op

/-! The operations of a stack once more, one step at a time, with every index and every difference
checked. An index outside the row, a difference below zero and a search that gets no lower break an
operation off. On well formed stacks no operation breaks off, and each does what it does unchecked. -/
namespace Narrative
namespace Stack
variable {α β γ : Type}

/-- What an operation answers and the stack it leaves, or `none` if it breaks off. -/
abbrev Checked (α β : Type) := Stack α → Option (Except StackError β × Stack α)

namespace Checked

def query (read : Stack α → Option β) : Checked α β :=
  fun s => (read s).map fun x => (.ok x, s)

def map (f : β → γ) (action : Checked α β) : Checked α γ :=
  fun s => (action s).map fun r => (r.1.map f, r.2)

def write (slots : Array α) (i : Nat) (v : α) : Option (Array α) :=
  if h : i < slots.size then some (slots.set i v h) else none

/-- A search that reaches the save goes on at the jump. -/
def hop (s : Stack α) (position : Nat) : Nat :=
  match s.snapshot with
  | some p => if position = p.save then p.jump else position
  | none => position

def size (s : Stack α) : Option Nat := do
  let span ← match s.snapshot with
    | some p =>
      if p.save ≤ s.top then do
        let width ← p.save.psub p.jump
        s.top.psub width
      else some s.top
    | none => some s.top
  span.psub s.dead

def live (s : Stack α) : Option (List α) :=
  let stop := match s.snapshot with
    | some p => max s.top p.save
    | none => s.top
  if stop ≤ s.slots.size then some (s.slots.toList.take stop) else none

/-- The bypassed slots are a part of the row, and only a part with slots in it is filled. -/
def forget : Checked α Unit := fun s =>
  match s.snapshot with
  | none => some (.error .forgetUnsaved, s)
  | some p =>
    if p.jump < p.save then
      if p.save ≤ s.slots.size then do
        let width ← p.save.psub p.jump
        let dead := if p.save ≤ s.top then s.dead + width else s.dead
        some (.ok (), { s with slots := s.entomb p, dead, snapshot := none })
      else none
    else some (.ok (), { s with snapshot := none })

section Reads
variable [BEq α]

/-- The search for the nearest element below a position, counting the tombstones that it passes. -/
def seek (s : Stack α) (position skipped : Nat) : Option (Option Nat × Nat) :=
  if hop s position = 0 then some (none, skipped)
  else do
    let i ← (hop s position).psub 1
    let v ← s.slots[i]?
    if v == s.null then
      if i < position then seek s i (skipped + 1) else none
    else some (some i, skipped)
termination_by position

/-- The positions of the elements below a position, each found by a search from the last. -/
def positions (s : Stack α) (position : Nat) : Option (List Nat) := do
  let (found, _) ← seek s position 0
  match found with
  | none => some []
  | some i =>
    if i < position then do
      let rest ← positions s i
      some (i :: rest)
    else none
termination_by position

def toList (s : Stack α) : Option (List α) := do
  let found ← positions s s.top
  found.mapM (s.slots[·]?)

def peek? (s : Stack α) : Option (Option α) := do
  let (found, _) ← seek s s.top 0
  match found with
  | some i => (s.slots[i]?).map some
  | none => some none

def step (s : Stack α) (c : Cursor) : Option (Option α × Cursor) := do
  let (found, _) ← seek s (s.resume c) 0
  match found with
  | some i => (s.slots[i]?).map fun v => (some v, ⟨some i⟩)
  | none => some (none, ⟨none⟩)

/-- A push past saved data moves the jump and the top before it writes. -/
def push (v : α) : Checked α Unit := fun s =>
  if v == s.null then some (.error .nullPushed, s)
  else
    let target := match s.snapshot with
      | some p => if s.top < p.save then p.save else s.top
      | none => s.top
    if s.capacity ≤ target then some (.error (.overflow s.capacity), s)
    else do
      let slots ← write s.slots target v
      some (.ok (), { s with slots, top := target + 1, snapshot := s.relocated })

def pop : Checked α α := fun s => do
  let (found, skipped) ← seek s s.top 0
  match found with
  | none => some (.error .underflow, s)
  | some i =>
    let dead ← s.dead.psub skipped
    let v ← s.slots[i]?
    some (.ok v, { s with top := i, dead })

def peek : Checked α α := fun s => do
  match ← peek? s with
  | some v => some (.ok v, s)
  | none => some (.error .underflow, s)

end Reads

end Checked

variable [BEq α]

/-- The operations left as they are look up no slot and take no difference. -/
def Control.checked : Control → Checked α (Answer α)
  | .size => .query fun s => (Checked.size s).map .count
  | .isEmpty => .query fun s => (Checked.size s).map fun n => .flag (n == 0)
  | .toList => .query fun s => (Checked.toList s).map .elements
  | .forget => Checked.forget.map fun _ => .done
  | k => fun s => some (attempt k.perform s)

def Op.checked : Op α → Checked α (Answer α)
  | .push v => (Checked.push v).map fun _ => .done
  | .pop => Checked.pop.map .element
  | .peek => Checked.peek.map .element
  | .null => .query fun s => some (.element s.null)
  | .live => .query fun s => (Checked.live s).map .elements
  | .step c => .query fun s => (Checked.step s c).map fun r => .stepped r.1 r.2
  | .control k => k.checked

/-! ### Reads -/

namespace Checked
variable {s : Stack α}

omit [BEq α] in
theorem getElem?_slots {i : Nat} (hi : i < s.capacity) : s.slots[i]? = some (s.slot i) := by
  have hsize : i < s.slots.size := hi
  simp [slot, hsize]

/-- A position in the row with no bypassed slots on both sides of it. -/
def Outside (s : Stack α) (n : Nat) : Prop :=
  n ≤ s.capacity ∧ ∀ p, s.snapshot = some p → p.jump ≤ p.save ∧ (n ≤ p.jump ∨ p.save ≤ n)

omit [BEq α] in
theorem outside_of_not_bypassed {n i : Nat} (hn : Outside s n) (hi : i < s.capacity)
    (hb : s.bypassed i = false) : Outside s i := by
  refine ⟨Nat.le_of_lt hi, fun p hp => ⟨(hn.2 p hp).1, ?_⟩⟩
  rw [bypassed_of_saved hp] at hb
  by_cases hj : p.jump ≤ i
  · exact .inr (by simpa [hj] using hb)
  · exact .inl (by omega)

omit [BEq α] in
theorem outside_top (hs : s.Ordered) : Outside s s.top := by
  refine ⟨hs.top_le, fun p hp => ⟨hs.jump_le p hp, ?_⟩⟩
  have := hs.top_lt_jump p hp
  omega

omit [BEq α] in
theorem hop_le {n : Nat} (hn : Outside s n) : hop s n ≤ n := by
  unfold hop
  split
  · next p hp =>
    have := (hn.2 p hp).1
    split <;> omega
  · exact Nat.le_refl n

omit [BEq α] in
/-- Below the position after the hop lies a slot that is not bypassed. -/
theorem bypassed_hop {n i : Nat} (hn : Outside s n) (hi : hop s n = i + 1) :
    s.bypassed i = false := by
  cases hp : s.snapshot with
  | none => exact bypassed_of_unsaved hp i
  | some p =>
    obtain ⟨hle, hout⟩ := hn.2 p hp
    rw [bypassed_of_saved hp]
    simp only [hop, hp] at hi
    by_cases hsave : n = p.save
    · rw [if_pos hsave] at hi
      simp [show ¬ p.jump ≤ i by omega]
    · rw [if_neg hsave] at hi
      by_cases hj : p.jump ≤ i
      · simp [show ¬ i < p.save by omega]
      · simp [hj]

theorem seekBelow_hop {n : Nat} (hn : Outside s n) : s.seekBelow n = s.seekBelow (hop s n) := by
  unfold hop
  split
  · next p hp =>
    split
    · next hsave =>
      rw [hsave]
      refine seekBelow_of_bypassed (hn.2 p hp).1 fun i hj hi => ?_
      simp [bypassed_of_saved hp, hj, hi]
    · rfl
  · rfl

theorem seek_eq {n : Nat} (hn : Outside s n) (skipped : Nat) :
    seek s n skipped = some ((s.seekBelow n).1, skipped + (s.seekBelow n).2) := by
  -- each round looks at one slot lower than the last
  induction n using Nat.strongRecOn generalizing skipped with
  | ind n ih =>
    have hle := hop_le hn
    rw [seek, seekBelow_hop hn]
    cases hi : hop s n with
    | zero => simp [seekBelow]
    | succ i =>
      have hb := bypassed_hop hn hi
      have hcap : i < s.capacity := by have := hn.1; omega
      have hlt : i < n := by omega
      by_cases hnull : (s.slot i == s.null) = true
      · have hrest := ih i hlt (outside_of_not_bypassed hn hcap hb) (skipped + 1)
        simp [seekBelow, hb, getElem?_slots hcap, hnull, hlt, hrest, Nat.add_assoc, Nat.add_comm 1]
      · simp [seekBelow, hb, getElem?_slots hcap, hnull]

/-- What a search finds lies lower, in a slot that is not bypassed. -/
theorem found_below {n i k : Nat} (hn : Outside s n) (h : s.seekBelow n = (some i, k)) :
    i < n ∧ i < s.capacity ∧ Outside s i := by
  have hmem : i ∈ s.positionsBelow n := by
    rw [(seekBelow_some h).1]
    exact List.mem_cons_self
  obtain ⟨hlt, hvac⟩ := mem_positionsBelow_iff.mp hmem
  have hcap := Nat.lt_of_lt_of_le hlt hn.1
  exact ⟨hlt, hcap, outside_of_not_bypassed hn hcap (Bool.or_eq_false_iff.mp hvac).1⟩

theorem positions_eq {n : Nat} (hn : Outside s n) : positions s n = some (s.positionsBelow n) := by
  induction n using Nat.strongRecOn with
  | ind n ih =>
    rw [positions, seek_eq hn]
    cases hseek : s.seekBelow n with
    | mk found k =>
      cases found with
      | none => simp [seekBelow_none hseek]
      | some i =>
        obtain ⟨hlt, -, hi⟩ := found_below hn hseek
        have hrest := ih i hlt hi
        simp [hlt, hrest, (seekBelow_some hseek).1]

omit [BEq α] in
theorem mapM_slots {l : List Nat} (h : ∀ i ∈ l, i < s.capacity) :
    l.mapM (s.slots[·]?) = some (l.map s.slot) := by
  induction l with
  | nil => rfl
  | cons i rest ih =>
    have hi := getElem?_slots (h i List.mem_cons_self)
    have hrest := ih fun j hj => h j (List.mem_cons_of_mem i hj)
    simp [List.mapM_cons, hi, hrest]

/-- The span from the bottom to the top without the bypassed slots has room for the tombstones. -/
theorem size_eq (hs : s.WellFormed) : size s = some s.size := by
  have hcount := s.length_positionsBelow s.top
  have hdead := hs.dead_eq
  cases hp : s.snapshot with
  | none =>
    rw [bypassedBelow_of_unsaved hp] at hcount
    have hle : s.dead ≤ s.top := by omega
    simp [size, Stack.size, hp, wordSub, hle, Nat.psub_eq_sub]
  | some p =>
    have hjump := (hs.fits p hp).jump_le
    have htop := (hs.fits p hp).top_lt_jump
    rw [bypassedBelow_of_saved hp hjump] at hcount
    by_cases hsave : p.save ≤ s.top
    · have hwidth : p.save - p.jump ≤ s.top := by omega
      have hle : s.dead ≤ s.top - (p.save - p.jump) := by omega
      simp [size, Stack.size, hp, hsave, wordSub, hle, Nat.psub_eq_sub, hjump, hwidth]
    · have hle : s.dead ≤ s.top := by omega
      simp [size, Stack.size, hp, hsave, wordSub, hle, Nat.psub_eq_sub]

section Ordered
variable (hs : s.Ordered)
include hs

theorem toList_eq : toList s = some s.toList := by
  rw [toList, positions_eq (outside_top hs)]
  exact mapM_slots fun _ hi => hs.lt_capacity hi

theorem peek?_eq : peek? s = some s.peek? := by
  have htop := outside_top hs
  rw [peek?, seek_eq htop, Stack.peek?, below]
  cases hseek : s.seekBelow s.top with
  | mk found k =>
    cases found with
    | none => rfl
    | some i => simp [getElem?_slots (found_below htop hseek).2.1]

omit [BEq α] in
theorem outside_resume (c : Cursor) : Outside s (s.resume c) := by
  have htop := outside_top hs
  unfold resume
  split
  · split
    · next i h =>
      simp only [reachable, Bool.and_eq_true, decide_eq_true_eq, Bool.not_eq_true'] at h
      exact outside_of_not_bypassed htop (Nat.lt_of_lt_of_le h.1 hs.top_le) h.2
    · exact htop
  · exact htop

theorem step_eq (c : Cursor) : step s c = some (s.step c) := by
  have hfrom := outside_resume hs c
  rw [step, seek_eq hfrom, Stack.step, below]
  cases hseek : s.seekBelow (s.resume c) with
  | mk found k =>
    cases found with
    | none => rfl
    | some i => simp [getElem?_slots (found_below hfrom hseek).2.1]

omit [BEq α] in
theorem live_eq : live s = some s.live := if_pos hs.frontier_le_capacity

end Ordered

/-! ### Actions -/

omit [BEq α] in
theorem map_eq {checked : Checked α β} {action : StackM α β}
    (h : checked s = some (attempt action s)) (f : β → γ) :
    checked.map f s = some (attempt (do pure (f (← action))) s) := by
  rw [Checked.map, h, attempt_bind_pure]
  rfl

theorem push_eq (s : Stack α) (v : α) : push v s = some (attempt (Stack.push v) s) := by
  have htarget : (match s.snapshot with
      | some p => if s.top < p.save then p.save else s.top
      | none => s.top) = s.frontier := by
    cases hp : s.snapshot with
    | none => simp [frontier, hp]
    | some p =>
      simp only [frontier, hp]
      split <;> omega
  cases hv : (v == s.null) with
  | true => simp [push, hv, attempt_push_null hv]
  | false =>
    by_cases hroom : s.frontier < s.capacity
    · have hsize : s.frontier < s.slots.size := hroom
      simp [push, hv, htarget, Nat.not_le_of_gt hroom, write, hsize,
        attempt_push_room hv hroom, pushed, Array.setIfInBounds]
    · have hfull := Nat.le_of_not_lt hroom
      simp [push, hv, htarget, hfull, attempt_push_full hv hfull]

theorem pop_eq (hs : s.Bounded) : pop s = some (attempt Stack.pop s) := by
  have htop := outside_top hs.toOrdered
  rw [pop, seek_eq htop]
  cases hseek : s.seekBelow s.top with
  | mk found k =>
    cases found with
    | none => simp [attempt_pop_none hseek]
    | some i =>
      have hcount := (seekBelow_some hseek).2
      have hdead := hs.tombstones_le
      -- the tombstones above the element are among those counted
      have hle : k ≤ s.dead := by omega
      have hcap := (found_below htop hseek).2.1
      simp [attempt_pop_some hseek, popped, wordSub, hle, Nat.psub_eq_sub, getElem?_slots hcap]

theorem peek_eq (hs : s.Ordered) : peek s = some (attempt Stack.peek s) := by
  rw [peek, peek?_eq hs]
  cases hv : s.peek? with
  | none => simp [attempt_peek_none hv]
  | some v => simp [attempt_peek_some hv]

omit [BEq α] in
theorem entomb_of_le {p : Snapshot} (h : p.save ≤ p.jump) : s.entomb p = s.slots := by
  refine Array.ext (by simp [entomb]) fun i hi hi' => ?_
  have hnone : ¬ (p.jump ≤ i ∧ i < p.save) := by omega
  simp [entomb, hnone]

omit [BEq α] in
theorem forget_eq (hs : s.Ordered) : forget s = some (attempt Stack.forget s) := by
  cases hp : s.snapshot with
  | none => simp [forget, hp, attempt_forget_unsaved hp]
  | some p =>
    have hjump := hs.jump_le p hp
    have hcap : p.save ≤ s.slots.size := hs.save_le p hp
    rw [attempt_forget_saved hp]
    by_cases hlt : p.jump < p.save
    · simp [forget, hp, hlt, hcap, Nat.psub_eq_sub, hjump, committed]
    · have heq : p.jump = p.save := by omega
      simp [forget, hp, heq, committed, entomb_of_le]

end Checked

/-! ### Operations -/

/-- The operations that take the tombstones from the span of the stack. -/
def Control.counts : Control → Bool
  | .size | .isEmpty => true
  | _ => false

def Op.counts : Op α → Bool
  | .control k => k.counts
  | _ => false

theorem Control.checked_eq {s : Stack α} (hs : s.Bounded) {k : Control} (hk : k.counts = false) :
    k.checked s = some (attempt k.perform s) := by
  cases k with
  | size | isEmpty => cases hk
  | toList =>
    rw [checked, Checked.query, Checked.toList_eq hs.toOrdered]
    rfl
  | forget => exact Checked.map_eq (Checked.forget_eq hs.toOrdered) _
  | capacity | hasSnapshot | clear | reset | save | restore => rfl

/-- As long as no tombstone is left out of the count, nothing but the number of elements breaks off. -/
theorem Op.checked_eq {s : Stack α} (hs : s.Bounded) {op : Op α} (hop : op.counts = false) :
    op.checked s = some (attempt op.perform s) := by
  cases op with
  | push v => exact Checked.map_eq (Checked.push_eq s v) _
  | pop => exact Checked.map_eq (Checked.pop_eq hs) _
  | peek => exact Checked.map_eq (Checked.peek_eq hs.toOrdered) _
  | null => rfl
  | live =>
    rw [checked, Checked.query, Checked.live_eq hs.toOrdered]
    rfl
  | step c =>
    rw [checked, Checked.query, Checked.step_eq hs.toOrdered]
    rfl
  | control k => exact Control.checked_eq hs hop

/-- Nothing breaks off: with all checks the action answers as it does without, and leaves the same. -/
def Checked.Covers (checked : Checked α β) (action : StackM α β) : Prop :=
  ∀ ⦃s⦄, s.WellFormed → checked s = some (attempt action s)

theorem Checked.Covers.map {checked : Checked α β} {action : StackM α β}
    (h : checked.Covers action) (f : β → γ) :
    (checked.map f).Covers (do pure (f (← action))) :=
  fun _ hs => map_eq (h hs) f

theorem Checked.Covers.query {checked : Stack α → Option β} {read : Stack α → β}
    (h : ∀ ⦃s⦄, s.WellFormed → checked s = some (read s)) :
    (Checked.query checked).Covers (Narrative.query read) := by
  intro s hs
  rw [Checked.query, h hs]
  rfl

theorem checked_push (v : α) : (Checked.push v).Covers (push v) :=
  fun s _ => Checked.push_eq s v

theorem checked_pop : (Checked.pop : Checked α α).Covers pop :=
  fun _ hs => Checked.pop_eq hs.bounded

theorem checked_control (k : Control) :
    (k.checked : Checked α (Answer α)).Covers k.perform := by
  cases k with
  | size => exact .query fun s hs => by rw [Checked.size_eq hs]; rfl
  | isEmpty => exact .query fun s hs => by rw [Checked.size_eq hs]; rfl
  | _ => exact fun s hs => Control.checked_eq hs.bounded rfl

theorem checked_op (op : Op α) : op.checked.Covers op.perform := by
  cases op with
  | control k => exact checked_control k
  | _ => exact fun s hs => Op.checked_eq hs.bounded rfl

end Stack
end Narrative
