import Narrative.Proofs.Stack.Provenance
import Narrative.Proofs.Stack.Stepping

/-! A cursor parked on an element while the stack changes. Elements are told apart by the operation that
pushed them. Wherever an element lies, on the stack or in its save, the same elements lie below it in
the same slots. So while it stays on the stack, pushes, pops, saves, restores and forgets above it
leave the next step of the cursor what it was. -/
namespace Narrative
namespace Stack
variable {α β γ : Type}

/-! ### Elements with their numbers -/

/-- An element with the number of the operation that pushed it. -/
structure Pushed (α : Type) where
  number : Nat
  element : α
  deriving DecidableEq

/-- The same with the slot that the element was written to. -/
structure Placed (α : Type) extends Pushed α where
  slot : Nat

/-- The part of a list with the numbers up to one of them: where the newest come first, all that lies
below that element, and itself. -/
def downFrom (k : Nat) (l : List (Placed α)) : List (Placed α) := l.filter (·.number ≤ k)

def NewestFirst (l : List (Placed α)) : Prop := l.Pairwise fun a b => b.number < a.number

def Holds (k : Nat) (l : List (Placed α)) : Prop := ∃ b ∈ l, b.number = k

theorem Holds.lt {k n : Nat} {l : List (Placed α)} (h : Holds k l) (hlt : ∀ b ∈ l, b.number < n) :
    k < n := by
  obtain ⟨b, hb, rfl⟩ := h
  exact hlt b hb

theorem downFrom_cons_of_lt {k : Nat} {b : Placed α} (h : k < b.number) (l : List (Placed α)) :
    downFrom k (b :: l) = downFrom k l := by
  simp [downFrom, h]

/-- An element is below another one if the other comes first, so dropping the first keeps the part. -/
theorem downFrom_tail {k : Nat} {l : List (Placed α)} (hl : NewestFirst l) (h : Holds k l.tail) :
    downFrom k l.tail = downFrom k l := by
  cases l with
  | nil => rfl
  | cons b rest =>
    obtain ⟨c, hc, rfl⟩ := h
    have hlt : c.number < b.number := (List.pairwise_cons.mp hl).1 c hc
    exact (downFrom_cons_of_lt hlt rest).symm

theorem downFrom_split {above below : List (Placed α)} {b : Placed α}
    (hl : NewestFirst (above ++ b :: below)) : downFrom b.number (above ++ b :: below) = b :: below := by
  obtain ⟨-, hlow, habove⟩ := List.pairwise_append.mp hl
  have hnone : downFrom b.number above = [] := by
    rw [downFrom, List.filter_eq_nil_iff]
    intro a ha
    simpa using habove a ha b List.mem_cons_self
  have hall : downFrom b.number below = below := by
    rw [downFrom, List.filter_eq_self]
    intro c hc
    simpa using Nat.le_of_lt ((List.pairwise_cons.mp hlow).1 c hc)
  rw [downFrom] at hnone hall
  simp [downFrom, hnone, hall]

namespace Plain

def after {ε δ : Type} (put : α → β) (op : Op α) (answer : Except ε δ) (m : Plain β) : Plain β :=
  match answer with
  | .ok _ => m.carry put op
  | .error _ => m

theorem map_after {ε δ : Type} {put : α → β} {put' : α → γ} {f : β → γ}
    (hf : ∀ v, f (put v) = put' v) (op : Op α) (answer : Except ε δ) (m : Plain β) :
    (m.after put op answer).map f = (m.map f).after put' op answer := by
  cases answer with
  | ok a => exact map_carry hf op m
  | error e => rfl

/-- The newest elements come first, and an element both on the stack and in the save has the same
elements below it in both. -/
structure Matched (n : Nat) (m : Plain (Placed α)) : Prop where
  lt : ∀ b ∈ m.all, b.number < n
  newestFirst : NewestFirst m.items
  saved_newestFirst : ∀ l, m.saved = some l → NewestFirst l
  shared : ∀ l, m.saved = some l → ∀ k, Holds k m.items → Holds k l →
    downFrom k m.items = downFrom k l

theorem matched_unsaved {n : Nat} {l : List (Placed α)} (hl : NewestFirst l)
    (hlt : ∀ b ∈ l, b.number < n) : Matched n { items := l } where
  lt b hb := hlt b (by simpa [all] using hb)
  newestFirst := hl
  saved_newestFirst _ h := by cases h
  shared _ h := by cases h

section Matched
variable {n : Nat} {m : Plain (Placed α)} (hm : m.Matched n)
include hm

theorem Matched.items_lt : ∀ b ∈ m.items, b.number < n :=
  fun b hb => hm.lt b (mem_all.mpr (.inl hb))

theorem Matched.saved_lt {l : List (Placed α)} (hl : m.saved = some l) : ∀ b ∈ l, b.number < n :=
  fun b hb => hm.lt b (mem_all.mpr (.inr ⟨l, hl, hb⟩))

theorem Matched.mono : m.Matched (n + 1) :=
  { hm with lt := fun b hb => Nat.lt_succ_of_lt (hm.lt b hb) }

theorem Matched.push (v : α) (i : Nat) : (m.push ⟨⟨n, v⟩, i⟩).Matched (n + 1) where
  lt b hb := by
    rcases mem_all_push hb with rfl | hold
    · exact Nat.lt_succ_self n
    · exact Nat.lt_succ_of_lt (hm.lt b hold)
  newestFirst := List.pairwise_cons.mpr ⟨hm.items_lt, hm.newestFirst⟩
  saved_newestFirst := hm.saved_newestFirst
  shared l hl k hnow hsaved := by
    have hk : k < n := hsaved.lt (hm.saved_lt hl)
    have hold : Holds k m.items := by
      obtain ⟨b, hb, rfl⟩ := hnow
      rcases List.mem_cons.mp hb with rfl | hb
      · exact absurd hk (Nat.lt_irrefl n)
      · exact ⟨b, hb, rfl⟩
    exact (downFrom_cons_of_lt hk m.items).trans (hm.shared l hl k hold hsaved)

theorem Matched.pop : ({ m with items := m.items.tail } : Plain (Placed α)).Matched n where
  lt b hb := hm.lt b (mem_all.mpr ((mem_all.mp hb).imp_left List.mem_of_mem_tail))
  newestFirst := hm.newestFirst.tail
  saved_newestFirst := hm.saved_newestFirst
  shared l hl k hnow hsaved := by
    have hold : Holds k m.items := by
      obtain ⟨b, hb, rfl⟩ := hnow
      exact ⟨b, List.mem_of_mem_tail hb, rfl⟩
    exact (downFrom_tail hm.newestFirst hnow).trans (hm.shared l hl k hold hsaved)

theorem Matched.control (k : Control) : (m.control k).Matched n := by
  cases k with
  | size | isEmpty | capacity | hasSnapshot | toList => exact hm
  | clear | reset => exact matched_unsaved .nil (by simp)
  | save =>
    refine ⟨fun b hb => hm.items_lt b ?_, hm.newestFirst, ?_, ?_⟩
    · simpa [Plain.control, all] using hb
    · rintro l ⟨⟩
      exact hm.newestFirst
    · rintro l ⟨⟩ j - -
      rfl
  | restore =>
    cases hl : m.saved with
    | none => simpa [Plain.control, hl] using matched_unsaved hm.newestFirst hm.items_lt
    | some l =>
      have hback := matched_unsaved (hm.saved_newestFirst l hl) (hm.saved_lt hl)
      simpa [Plain.control, hl] using hback
  | forget => exact matched_unsaved hm.newestFirst hm.items_lt

theorem Matched.after {ε δ : Type} (i : Nat) (op : Op α) (answer : Except ε δ) :
    (m.after (fun v => ⟨⟨n, v⟩, i⟩) op answer).Matched (n + 1) := by
  cases answer with
  | error e => exact hm.mono
  | ok a =>
    cases op with
    | push v => exact hm.push v i
    | pop => exact hm.pop.mono
    | control k => exact (hm.control k).mono
    | peek | null | live | step => exact hm.mono

theorem Matched.exists_of_downFrom {b : Placed α} {below : List (Placed α)}
    (h : downFrom b.number m.items = b :: below) : ∃ above, m.items = above ++ b :: below := by
  have hmem : b ∈ downFrom b.number m.items := h ▸ List.mem_cons_self
  obtain ⟨above, rest, hitems⟩ := List.append_of_mem (List.mem_filter.mp hmem).1
  have hsplit := downFrom_split (hitems ▸ hm.newestFirst)
  rw [hitems, hsplit] at h
  exact ⟨above, by rw [hitems, h]⟩

/-- As long as an element stays on the stack, all below it stays as it is. -/
theorem Matched.downFrom_after {ε δ : Type} {i k : Nat} {op : Op α} {answer : Except ε δ}
    (hk : Holds k m.items) (hstays : Holds k (m.after (fun v => ⟨⟨n, v⟩, i⟩) op answer).items) :
    downFrom k (m.after (fun v => ⟨⟨n, v⟩, i⟩) op answer).items = downFrom k m.items := by
  cases answer with
  | error e => rfl
  | ok a =>
    cases op with
    | push v => exact downFrom_cons_of_lt (hk.lt hm.items_lt) m.items
    | pop => exact downFrom_tail hm.newestFirst hstays
    | peek | null | live | step => rfl
    | control c =>
      cases c with
      | size | isEmpty | capacity | hasSnapshot | toList | save | forget => rfl
      | clear | reset =>
        obtain ⟨b, hb, -⟩ := hstays
        cases hb
      | restore =>
        cases hl : m.saved with
        | none => simp [Plain.after, carry, Plain.control, hl]
        | some l =>
          have hafter : (m.after (fun v => ⟨⟨n, v⟩, i⟩) (.control .restore) (.ok a : Except ε δ)).items
              = l := by simp [Plain.after, carry, Plain.control, hl]
          rw [hafter] at hstays ⊢
          exact (hm.shared l hl k hk hstays).symm

end Matched

end Plain

variable [BEq α] {s t : Stack α} {capacity : Nat} {null : α}

/-! ### Slots -/

/-- The elements on a stack with their slots, and those that a restore would put there. -/
def cells (s : Stack α) : Plain (Nat × α) := ⟨s.layout.now.cells, s.layout.saved.map Sheet.cells⟩

theorem cells_control (hs : s.WellFormed) (hnull : (s.null == s.null) = true) (k : Control) :
    (attempt (k.perform : StackM α (Answer α)) s).2.cells =
      s.cells.after (fun v => (s.frontier, v)) (.control k)
        (attempt (k.perform : StackM α (Answer α)) s).1 := by
  cases k with
  | size | isEmpty | capacity | hasSnapshot | toList | reset => rfl
  | clear =>
    simp only [Control.perform, attempt_bind_pure]
    rcases clear_cases s with ⟨-, h⟩ | ⟨-, h⟩ <;> rw [h] <;> rfl
  | save =>
    simp only [Control.perform, attempt_bind_pure]
    rcases save_cases hs with ⟨-, h⟩ | ⟨-, t, h, -, hl⟩
    · rw [h]
      rfl
    · rw [h, cells, hl]
      rfl
  | restore =>
    simp only [Control.perform, attempt_bind_pure]
    rcases restore_cases hs with ⟨-, h⟩ | ⟨r, t, hr, h, -, hl⟩
    · rw [h]
      rfl
    · rw [h, cells, cells, hl, hr]
      rfl
  | forget =>
    simp only [Control.perform, attempt_bind_pure]
    rcases forget_cases hs hnull with ⟨-, h⟩ | ⟨r, t, -, h, -, hl⟩
    · rw [h]
      rfl
    · rw [h, cells, hl]
      rfl

/-- The elements stay in their slots, and a new one comes to the frontier. -/
theorem cells_op (hs : s.WellFormed) (hnull : (s.null == s.null) = true) (op : Op α) :
    (attempt op.perform s).2.cells =
      s.cells.after (fun v => (s.frontier, v)) op (attempt op.perform s).1 := by
  cases op with
  | push v =>
    simp only [Op.perform, attempt_bind_pure]
    rcases push_cases v hs with ⟨-, h⟩ | ⟨-, -, h⟩ | ⟨t, -, -, h, -, hl⟩
    · rw [h]
      rfl
    · rw [h]
      rfl
    · rw [h, cells, hl, ← frontier_layout]
      rfl
  | pop =>
    simp only [Op.perform, attempt_bind_pure]
    rcases pop_cases hs with ⟨-, h⟩ | ⟨i, v, rest, t, hc, h, -, hl⟩
    · rw [h]
      rfl
    · rw [h, cells, cells, hl]
      simp [Plain.after, Plain.carry, Except.map, hc]
  | peek =>
    simp only [Op.perform, attempt_bind_pure]
    rcases peek_cases s with ⟨-, h⟩ | ⟨v, rest, -, h⟩ <;> rw [h] <;> rfl
  | null | live | step => rfl
  | control k => exact cells_control hs hnull k

theorem cells_items (s : Stack α) : s.cells.items = s.positions.map fun i => (i, s.slot i) := rfl

theorem slot_of_mem_cells {c : Nat × α} (h : c ∈ s.cells.items) : s.slot c.1 = c.2 := by
  rw [cells_items] at h
  obtain ⟨i, -, rfl⟩ := List.mem_map.mp h
  rfl

theorem step_of_cells {above below : List (Nat × α)} {i : Nat} {v : α}
    (h : s.cells.items = above ++ (i, v) :: below) :
    s.step ⟨some i⟩ = (below.head?.map Prod.snd, ⟨below.head?.map Prod.fst⟩) := by
  have hpositions : s.positionsBelow s.top = above.map Prod.fst ++ i :: below.map Prod.fst := by
    have hfst := congrArg (List.map Prod.fst) h
    simpa [cells_items, positions, Function.comp_def] using hfst
  have hmem : i ∈ s.positionsBelow s.top := by simp [hpositions]
  rw [step_eq_handOut, resume_parked (Nat.le_refl _) hmem, below_eq_head?,
    positionsBelow_of_append hpositions, handOut]
  cases below with
  | nil => rfl
  | cons c rest =>
    have hslot := slot_of_mem_cells (s := s) (c := c) (by simp [h])
    simp [hslot]

/-! ### Histories -/

/-- The plain model in the course of a history, with the numbers from `n` on for its operations. -/
def numberedFrom : Nat → Plain (Pushed α) → Stack α → List (Op α) → Plain (Pushed α)
  | _, m, _, [] => m
  | n, m, s, op :: ops =>
    numberedFrom (n + 1) (m.after (⟨n, ·⟩) op (attempt op.perform s).1) (attempt op.perform s).2 ops

/-- The elements after a history, each with the number of the operation that pushed it. -/
def numbered (slots : Array α) (null : α) (ops : List (Op α)) : Plain (Pushed α) :=
  numberedFrom 0 {} (ofSlots slots null) ops

theorem numberedFrom_append (n : Nat) (m : Plain (Pushed α)) (s : Stack α) (u v : List (Op α)) :
    numberedFrom n m s (u ++ v) =
      numberedFrom (n + u.length) (numberedFrom n m s u) (attempts Op.perform u s).2 v := by
  induction u generalizing n m s with
  | nil => rfl
  | cons op ops ih =>
    rw [List.cons_append, numberedFrom, ih, List.length_cons, Nat.add_right_comm n 1]
    rfl

/-- The placed elements are those of the numbered model, and lie where the stack has them. -/
structure Places (n : Nat) (m : Plain (Pushed α)) (s : Stack α) (g : Plain (Placed α)) : Prop where
  matched : g.Matched n
  numbered : g.map Placed.toPushed = m
  cells : g.map (fun b => (b.slot, b.element)) = s.cells

theorem Places.step {n : Nat} {m : Plain (Pushed α)} {g : Plain (Placed α)} (hg : Places n m s g)
    (hs : s.WellFormed) (hnull : (s.null == s.null) = true) (op : Op α) :
    Places (n + 1) (m.after (⟨n, ·⟩) op (attempt op.perform s).1) (attempt op.perform s).2
      (g.after (fun v => ⟨⟨n, v⟩, s.frontier⟩) op (attempt op.perform s).1) where
  matched := hg.matched.after s.frontier op _
  numbered := by
    rw [Plain.map_after fun _ => rfl, hg.numbered]
  cells := by
    rw [cells_op hs hnull, Plain.map_after fun _ => rfl, hg.cells]

theorem places_start (slots : Array α) (null : α) : Places 0 {} (ofSlots slots null) {} where
  matched := Plain.matched_unsaved .nil (by simp)
  numbered := rfl
  cells := rfl

section Places
variable {n : Nat} {m : Plain (Pushed α)} {g : Plain (Placed α)} (hg : Places n m s g)
include hg

theorem Places.holds {e : Pushed α} (he : e ∈ m.items) : Holds e.number g.items := by
  rw [← hg.numbered] at he
  obtain ⟨b, hb, rfl⟩ := List.mem_map.mp he
  exact ⟨b, hb, rfl⟩

theorem Places.toList_eq : s.toList = m.items.map Pushed.element := by
  have helements : s.toList = s.cells.items.map Prod.snd := (elements_layout s).symm
  rw [helements, ← hg.cells, ← hg.numbered]
  simp [Plain.map]

theorem Places.positions_eq : s.positions = g.items.map Placed.slot := by
  have hslots : s.positions = s.cells.items.map Prod.fst := by
    simp [cells_items, Function.comp_def]
  rw [hslots, ← hg.cells]
  simp [Plain.map]

theorem Places.step_parked {above below : List (Placed α)} {b : Placed α}
    (h : g.items = above ++ b :: below) :
    s.step ⟨some b.slot⟩ = (below.head?.map (·.element), ⟨below.head?.map Placed.slot⟩) := by
  have hcells : s.cells.items = above.map (fun b => (b.slot, b.element)) ++
      (b.slot, b.element) :: below.map fun b => (b.slot, b.element) := by
    rw [← hg.cells]
    simp [Plain.map, h]
  rw [step_of_cells hcells, List.head?_map, Option.map_map, Option.map_map]
  rfl

/-- An element handed out is one of those placed, and the cursor is parked where it lies. -/
theorem Places.exists_of_step {c c' : Cursor} {v : α} (h : s.step c = (some v, c')) :
    ∃ above b below, g.items = above ++ b :: below ∧ b.element = v ∧ (⟨some b.slot⟩ : Cursor) = c' ∧
      c'.position = s.positions[above.length]? := by
  rw [step_eq_handOut, handOut] at h
  cases hi : s.below (s.resume c) with
  | none => simp [hi] at h
  | some i =>
    have hmem : i ∈ s.positions := by
      rw [below_eq_head?] at hi
      obtain ⟨hlt, hvac⟩ := mem_positionsBelow_iff.mp (List.mem_of_head? hi)
      exact mem_positionsBelow_iff.mpr ⟨Nat.lt_of_lt_of_le hlt (s.resume_le_top c), hvac⟩
    rw [hg.positions_eq] at hmem
    obtain ⟨b, hb, rfl⟩ := List.mem_map.mp hmem
    obtain ⟨above, below, hitems⟩ := List.append_of_mem hb
    have hslot : s.slot b.slot = b.element := by
      have hc : (b.slot, b.element) ∈ s.cells.items := by
        rw [← hg.cells]
        exact List.mem_map.mpr ⟨b, hb, rfl⟩
      exact slot_of_mem_cells hc
    simp only [hi, Option.map_some, Prod.mk.injEq, Option.some.injEq] at h
    obtain ⟨rfl, rfl⟩ := h
    refine ⟨above, b, below, hitems, hslot.symm, rfl, ?_⟩
    simp [hg.positions_eq, hitems]

end Places

/-- After more operations the placed elements below one that has stayed are those there were. -/
theorem Places.run {n : Nat} {m : Plain (Pushed α)} {g : Plain (Placed α)} (hg : Places n m s g)
    (hs : s.Sound capacity null) (hnull : (null == null) = true) (ops : List (Op α)) :
    ∃ g', Places (n + ops.length) (numberedFrom n m s ops) (attempts Op.perform ops s).2 g' ∧
      ∀ e, (∀ i ≤ ops.length, e ∈ (numberedFrom n m s (ops.take i)).items) →
        downFrom e.number g'.items = downFrom e.number g.items := by
  induction ops generalizing n m s g with
  | nil => exact ⟨g, hg, fun _ _ => rfl⟩
  | cons op ops ih =>
    have hself : (s.null == s.null) = true := by rw [hs.null_eq]; exact hnull
    have hstep := hg.step hs.wellFormed hself op
    obtain ⟨g', hg', hrest⟩ := ih hstep (op_follows hs hnull op).1
    refine ⟨g', ?_, fun e he => ?_⟩
    · rw [List.length_cons, ← Nat.add_assoc, Nat.add_right_comm]
      exact hg'
    · have hnow : Holds e.number g.items := hg.holds (he 0 (Nat.zero_le _))
      have hnext := hstep.holds (he 1 (by simp))
      rw [hrest e fun i hi => he (i + 1) (Nat.succ_le_succ hi)]
      exact hg.matched.downFrom_after hnow hnext

/-- The element is on the stack after each of the operations that follow a history. -/
def Stays (slots : Array α) (null : α) (before after : List (Op α)) (e : Pushed α) : Prop :=
  ∀ i ≤ after.length, e ∈ (numbered slots null (before ++ after.take i)).items

/-- A step has handed out an element and has parked the cursor on it. As long as that element, told
from others by its push, stays on the stack, whatever operations go on above it, the next step is the
one that would have come at once: it hands out the element that was right below, or nothing if there was
none, and then the cursor is fresh. -/
theorem parked_cursor_goes_on {null : α} (hnull : (null == null) = true) (slots : Array α)
    (before after : List (Op α)) {c c' : Cursor} {v : α}
    (hstep : (attempts Op.perform before (ofSlots slots null)).2.step c = (some v, c')) :
    let s := (attempts Op.perform before (ofSlots slots null)).2
    let t := (attempts Op.perform after s).2
    s.toList = (numbered slots null before).items.map Pushed.element ∧
    ∃ above e below, (numbered slots null before).items = above ++ e :: below ∧ e.element = v ∧
      c'.position = s.positions[above.length]? ∧
      (Stays slots null before after e →
        t.step c' = s.step c' ∧ (t.step c').1 = below.head?.map Pushed.element ∧
        (below = [] → (t.step c').2 = {})) := by
  intro s t
  have hs : s.Sound slots.size null := sound_attempts hnull slots before
  obtain ⟨g, hg, -⟩ := (places_start slots null).run ⟨wellFormed_ofSlots slots null, rfl, rfl⟩ hnull
    before
  obtain ⟨g', hg', hkept⟩ := hg.run hs hnull after
  obtain ⟨above, b, below, hitems, rfl, rfl, hposition⟩ := hg.exists_of_step hstep
  refine ⟨hg.toList_eq, above.map Placed.toPushed, b.toPushed, below.map Placed.toPushed, ?_, rfl, ?_,
    fun hstays => ?_⟩
  · rw [numbered, ← hg.numbered]
    simp [Plain.map, hitems]
  · simpa using hposition
  · -- the element and all below it are still there, so both stacks step from the same cells
    have hdown : downFrom b.number g'.items = b :: below := by
      have hnewest := hg.matched.newestFirst
      rw [hkept b.toPushed fun i hi => ?_, hitems, downFrom_split (hitems ▸ hnewest)]
      have h := hstays i hi
      rwa [numbered, numberedFrom_append] at h
    obtain ⟨above', hitems'⟩ := hg'.matched.exists_of_downFrom hdown
    have hs' := hg.step_parked hitems
    have ht' := hg'.step_parked hitems'
    refine ⟨ht'.trans hs'.symm, ?_, fun hnil => ?_⟩
    · rw [ht', List.head?_map, Option.map_map]
      rfl
    · rw [ht', List.map_eq_nil_iff.mp hnil]
      rfl

/-- A tombstone lies under the second element, and the first was pushed past a save. -/
def secondOverTombstone : List (Op Nat) :=
  [.push 1, .push 9, .control .save, .pop, .push 2, .control .forget, .push 3, .control .save, .pop,
    .push 4]

/-- The save is restored, and a second one leaves a tombstone right above the second element. -/
def restoreAndCommit : List (Op Nat) :=
  [.push 5, .pop, .control .restore, .control .save, .pop, .push 6, .control .forget, .pop]

theorem secondOverTombstone_goes_on :
    let s : Stack Nat := ⟨#[1, 0, 2, 3, 4, 9], 0, 5, 1, some ⟨4, 3, 1⟩⟩
    ((0 : Nat) == 0) = true ∧ s.step ⟨some 4⟩ = (some 2, ⟨some 2⟩) ∧
    Stays (Array.replicate 6 9) 0 secondOverTombstone restoreAndCommit ⟨4, 2⟩ ∧
    (attempts Op.perform restoreAndCommit s).2.step ⟨some 2⟩ = (some 1, ⟨some 0⟩) := by
  intro s
  have hrun : (attempts Op.perform secondOverTombstone (ofSlots (Array.replicate 6 9) 0)).2 = s := by
    rfl
  have hitems : (numbered (Array.replicate 6 9) 0 secondOverTombstone).items =
      [⟨9, 4⟩, ⟨4, 2⟩, ⟨0, 1⟩] := by rfl
  have hstep : s.step ⟨some 4⟩ = (some 2, ⟨some 2⟩) := by rfl
  have hstays : Stays (Array.replicate 6 9) 0 secondOverTombstone restoreAndCommit ⟨4, 2⟩ := by
    unfold Stays
    decide
  have h := parked_cursor_goes_on (show ((0 : Nat) == 0) = true from rfl) (Array.replicate 6 9)
    secondOverTombstone restoreAndCommit (by rw [hrun]; exact hstep)
  rw [hrun, hitems] at h
  obtain ⟨-, above, e, below, hsplit, he, -, hgoes⟩ := h
  -- only one of the elements is the one handed out
  have honly : ∀ e ∈ [(⟨9, 4⟩ : Pushed Nat), ⟨4, 2⟩, ⟨0, 1⟩], e.element = 2 → e = ⟨4, 2⟩ := by decide
  obtain rfl := honly e (by simp [hsplit]) he
  exact ⟨rfl, hstep, hstays, (hgoes hstays).1⟩

end Stack
end Narrative
