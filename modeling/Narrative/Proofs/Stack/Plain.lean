import Narrative.Proofs.Stack.Transitions
import Narrative.Stack.Op

/-! The plain model of a stack: a list and at most one saved copy of it. Whatever its slots hold at
first, an empty stack and the plain model go through every history together; only the slots can run
out. -/
namespace Narrative
namespace Stack
variable {α : Type}

/-- The elements, the top one first, and those of the save that is outstanding. -/
structure Plain (α : Type) where
  items : List α := []
  saved : Option (List α) := none

namespace Plain

def AllowsControl (capacity : Nat) (m : Plain α) :
    Control → Except StackError (Answer α) → Plain α → Prop
  | .size, answer, m' => answer = .ok (.count m.items.length) ∧ m' = m
  | .isEmpty, answer, m' => answer = .ok (.flag m.items.isEmpty) ∧ m' = m
  | .capacity, answer, m' => answer = .ok (.count capacity) ∧ m' = m
  | .hasSnapshot, answer, m' => answer = .ok (.flag m.saved.isSome) ∧ m' = m
  | .toList, answer, m' => answer = .ok (.elements m.items) ∧ m' = m
  | .clear, answer, m' =>
    match m.saved with
    | some _ => answer = .error .clearWhileSaved ∧ m' = m
    | none => answer = .ok .done ∧ m' = {}
  | .reset, answer, m' => answer = .ok .done ∧ m' = {}
  | .save, answer, m' =>
    match m.saved with
    | some _ => answer = .error .savedTwice ∧ m' = m
    | none => answer = .ok .done ∧ m' = { m with saved := some m.items }
  | .restore, answer, m' =>
    match m.saved with
    | some l => answer = .ok .done ∧ m' = { items := l }
    | none => answer = .error .restoreUnsaved ∧ m' = m
  | .forget, answer, m' =>
    match m.saved with
    | some _ => answer = .ok .done ∧ m' = { items := m.items }
    | none => answer = .error .forgetUnsaved ∧ m' = m

/-- What an operation may answer, and what it then leaves. A push may find no room, which the model
does not foresee. Where the elements lie is told by `live` and `step` and not known to the model. -/
def Allows [BEq α] (capacity : Nat) (null : α) (m : Plain α) :
    Op α → Except StackError (Answer α) → Plain α → Prop
  | .push v, answer, m' =>
    if v == null then answer = .error .nullPushed ∧ m' = m
    else answer = .ok .done ∧ m' = { m with items := v :: m.items } ∨
      answer = .error (.overflow capacity) ∧ m' = m
  | .pop, answer, m' =>
    match m.items with
    | v :: rest => answer = .ok (.element v) ∧ m' = { m with items := rest }
    | [] => answer = .error .underflow ∧ m' = m
  | .peek, answer, m' =>
    match m.items with
    | v :: _ => answer = .ok (.element v) ∧ m' = m
    | [] => answer = .error .underflow ∧ m' = m
  | .null, answer, m' => answer = .ok (.element null) ∧ m' = m
  | .live, answer, m' => (∃ a, answer = .ok a) ∧ m' = m
  | .step _, answer, m' => (∃ a, answer = .ok a) ∧ m' = m
  | .control k, answer, m' => m.AllowsControl capacity k answer m'

end Plain

variable [BEq α]

/-- The elements that lie on a stack, and those that a restore would put there. -/
def plain (s : Stack α) : Plain α where
  items := s.toList
  saved := s.snapshot.map fun p => (s.rollback p).toList

theorem plain_eq (s : Stack α) :
    s.plain = ⟨s.layout.now.elements, s.layout.saved.map Sheet.elements⟩ := by
  simp [plain, layout, Function.comp_def]

theorem isEmpty_eq {s : Stack α} (hs : s.WellFormed) : s.isEmpty = s.toList.isEmpty := by
  rw [isEmpty, size_eq_length hs]
  cases s.toList <;> rfl

theorem isSome_saved (s : Stack α) : s.plain.saved.isSome = s.hasSnapshot := by
  simp [plain, hasSnapshot]

structure Sound (s : Stack α) (capacity : Nat) (null : α) : Prop where
  wellFormed : s.WellFormed
  capacity_eq : s.capacity = capacity
  null_eq : s.null = null

theorem Sound.of_layout {s t : Stack α} {capacity : Nat} {null : α} (hs : s.Sound capacity null)
    (ht : t.WellFormed) (hcap : t.layout.capacity = s.layout.capacity)
    (hnull : t.layout.null = s.layout.null) : t.Sound capacity null :=
  ⟨ht, hcap.trans hs.capacity_eq, hnull.trans hs.null_eq⟩

section Step
variable {s : Stack α} {capacity : Nat} {null : α} (hs : s.Sound capacity null)
  (hnull : (null == null) = true)
include hs

theorem push_follows (v : α) :
    (attempt (Op.push v).perform s).2.Sound capacity null ∧
      s.plain.Allows capacity null (.push v) (attempt (Op.push v).perform s).1
        (attempt (Op.push v).perform s).2.plain := by
  simp only [Op.perform, attempt_bind_pure, Plain.Allows]
  have hnulls := hs.null_eq
  have hcap := hs.capacity_eq
  rcases push_cases v hs.wellFormed with ⟨hv, h⟩ | ⟨hv, -, h⟩ | ⟨t, hv, -, h, ht, hl⟩
  · rw [h, ← hnulls, if_pos hv]
    exact ⟨hnulls ▸ hs, rfl, rfl⟩
  · rw [h, ← hnulls, if_neg (by simp [hv])]
    exact ⟨hnulls ▸ hs, .inr ⟨by rw [hcap]; rfl, rfl⟩⟩
  · rw [h, ← hnulls, if_neg (by simp [hv])]
    refine ⟨hnulls ▸ hs.of_layout ht (by rw [hl]; rfl) (by rw [hl]; rfl), .inl ⟨rfl, ?_⟩⟩
    rw [plain_eq, plain_eq, hl]
    rfl

theorem pop_follows :
    (attempt Op.pop.perform s).2.Sound capacity null ∧
      s.plain.Allows capacity null .pop (attempt Op.pop.perform s).1
        (attempt Op.pop.perform s).2.plain := by
  simp only [Op.perform, attempt_bind_pure, Plain.Allows]
  have hitems : s.plain.items = s.layout.now.cells.map Prod.snd := by rw [plain_eq]; rfl
  rcases pop_cases hs.wellFormed with ⟨hc, h⟩ | ⟨i, v, rest, t, hc, h, ht, hl⟩
  · rw [h, hitems, hc]
    exact ⟨hs, rfl, rfl⟩
  · rw [h, hitems, hc]
    refine ⟨hs.of_layout ht (by rw [hl]) (by rw [hl]), rfl, ?_⟩
    rw [plain_eq, plain_eq, hl]
    rfl

theorem peek_follows :
    (attempt Op.peek.perform s).2.Sound capacity null ∧
      s.plain.Allows capacity null .peek (attempt Op.peek.perform s).1
        (attempt Op.peek.perform s).2.plain := by
  simp only [Op.perform, attempt_bind_pure, Plain.Allows]
  have hitems : s.plain.items = s.toList := rfl
  rcases peek_cases s with ⟨hl, h⟩ | ⟨v, rest, hl, h⟩
  · rw [h, hitems, hl]
    exact ⟨hs, rfl, rfl⟩
  · rw [h, hitems, hl]
    exact ⟨hs, rfl, rfl⟩

include hnull

theorem control_follows (k : Control) :
    (attempt (k.perform : StackM α _) s).2.Sound capacity null ∧
      s.plain.AllowsControl capacity k (attempt k.perform s).1 (attempt k.perform s).2.plain := by
  have hsaved : s.plain.saved = s.layout.saved.map Sheet.elements := by rw [plain_eq]
  -- what changes the stack has one case for each answer, with the layout that it leaves
  cases k with
  | size =>
    refine ⟨hs, ?_, rfl⟩
    rw [Control.perform, attempt_query, size_eq_length hs.wellFormed]
    rfl
  | isEmpty =>
    refine ⟨hs, ?_, rfl⟩
    rw [Control.perform, attempt_query, isEmpty_eq hs.wellFormed]
    rfl
  | capacity => exact ⟨hs, by rw [← hs.capacity_eq]; rfl, rfl⟩
  | hasSnapshot =>
    refine ⟨hs, ?_, rfl⟩
    rw [Control.perform, attempt_query, isSome_saved]
  | toList => exact ⟨hs, rfl, rfl⟩
  | clear =>
    simp only [Control.perform, attempt_bind_pure, Plain.AllowsControl, hsaved]
    rcases clear_cases s with ⟨⟨r, hr⟩, h⟩ | ⟨hn, h⟩
    · rw [h, hr]
      exact ⟨hs, rfl, rfl⟩
    · rw [h, hn]
      exact ⟨hs.of_layout (wellFormed_reset s) rfl rfl, rfl, rfl⟩
  | reset => exact ⟨hs.of_layout (wellFormed_reset s) rfl rfl, rfl, rfl⟩
  | save =>
    simp only [Control.perform, attempt_bind_pure, Plain.AllowsControl, hsaved]
    rcases save_cases hs.wellFormed with ⟨⟨r, hr⟩, h⟩ | ⟨hn, t, h, ht, hl⟩
    · rw [h, hr]
      exact ⟨hs, rfl, rfl⟩
    · rw [h, hn]
      refine ⟨hs.of_layout ht (by rw [hl]; rfl) (by rw [hl]; rfl), rfl, ?_⟩
      rw [plain_eq, plain_eq, hl, Layout.save, hn]
      rfl
  | restore =>
    simp only [Control.perform, attempt_bind_pure, Plain.AllowsControl, hsaved]
    rcases restore_cases hs.wellFormed with ⟨hn, h⟩ | ⟨r, t, hr, h, ht, hl⟩
    · rw [h, hn]
      exact ⟨hs, rfl, rfl⟩
    · rw [h, hr]
      refine ⟨hs.of_layout ht (by rw [hl]) (by rw [hl]), rfl, ?_⟩
      rw [plain_eq, hl]
      rfl
  | forget =>
    simp only [Control.perform, attempt_bind_pure, Plain.AllowsControl, hsaved]
    have hself : (s.null == s.null) = true := by rw [hs.null_eq]; exact hnull
    rcases forget_cases hs.wellFormed hself with ⟨hn, h⟩ | ⟨r, t, hr, h, ht, hl⟩
    · rw [h, hn]
      exact ⟨hs, rfl, rfl⟩
    · rw [h, hr]
      refine ⟨hs.of_layout ht (by rw [hl]; rfl) (by rw [hl]; rfl), rfl, ?_⟩
      rw [plain_eq, plain_eq, hl]
      rfl

theorem op_follows (op : Op α) :
    (attempt op.perform s).2.Sound capacity null ∧
      s.plain.Allows capacity null op (attempt op.perform s).1 (attempt op.perform s).2.plain := by
  cases op with
  | push v => exact push_follows hs v
  | pop => exact pop_follows hs
  | peek => exact peek_follows hs
  | null => exact ⟨hs, by rw [← hs.null_eq]; exact ⟨rfl, rfl⟩⟩
  | live => exact ⟨hs, ⟨_, rfl⟩, rfl⟩
  | step c => exact ⟨hs, ⟨_, rfl⟩, rfl⟩
  | control k => exact control_follows hs hnull k

end Step

theorem sound_attempts {null : α} (hnull : (null == null) = true) (slots : Array α)
    (ops : List (Op α)) :
    (attempts Op.perform ops (ofSlots slots null)).2.Sound slots.size null :=
  attempts_preserve (P := fun s : Stack α => s.Sound slots.size null)
    (fun op _ _ hs => (op_follows hs hnull op).1) ⟨wellFormed_ofSlots slots null, rfl, rfl⟩

/-- A stack over any slots, whatever they hold, goes through every history as a list with one saved
copy does: equal answers, and the elements from the top down are the list. -/
theorem attempts_follow_plain {null : α} (hnull : (null == null) = true) (slots : Array α)
    (ops : List (Op α)) :
    Follows (Plain.Allows slots.size null) {} ops
      (attempts Op.perform ops (ofSlots slots null)).1
      (attempts Op.perform ops (ofSlots slots null)).2.plain :=
  attempts_follow (P := fun s : Stack α => s.Sound slots.size null)
    (fun op _ hs => op_follows hs hnull op) ops ⟨wellFormed_ofSlots slots null, rfl, rfl⟩

/-- A push that jumps over saved data, a second one that finds no room, and a forget. -/
def pushPastSaved : List (Op Nat) :=
  [.push 1, .push 2, .control .save, .pop, .push 3, .push 4, .control .forget, .push 0, .pop,
    .control .toList]

theorem pushPastSaved_follows_plain :
    ((0 : Nat) == 0) = true ∧
    Follows (Plain.Allows 3 0) {} pushPastSaved
      [.ok .done, .ok .done, .ok .done, .ok (.element 2), .ok .done, .error (.overflow 3),
        .ok .done, .error .nullPushed, .ok (.element 3), .ok (.elements [1])]
      { items := [1] } := by
  have hanswers : (attempts Op.perform pushPastSaved (ofSlots #[7, 8, 9] 0)).1 =
      [.ok .done, .ok .done, .ok .done, .ok (.element 2), .ok .done, .error (.overflow 3),
        .ok .done, .error .nullPushed, .ok (.element 3), .ok (.elements [1])] := by cbv
  have hplain : (attempts Op.perform pushPastSaved (ofSlots #[7, 8, 9] 0)).2.plain =
      { items := [1] } := by rfl
  have h := attempts_follow_plain (show ((0 : Nat) == 0) = true from rfl) #[7, 8, 9] pushPastSaved
  rw [hanswers, hplain] at h
  exact ⟨rfl, h⟩

end Stack
end Narrative
