import Narrative.Proofs.Stack.Plain
import Narrative.Proofs.Stack.Retained

/-! Where the elements on a stack come from. What a successful operation makes of the plain model does
not depend on what the elements are, so they may carry a note of how they were put there: the notes
go wherever the elements go. -/
namespace Narrative
namespace Stack
variable {α β γ : Type}

namespace Plain

def map (f : β → γ) (m : Plain β) : Plain γ := ⟨m.items.map f, m.saved.map (List.map f)⟩

/-- The elements on the stack and those of the save. -/
def all (m : Plain β) : List β := m.items ++ m.saved.getD []

def push (b : β) (m : Plain β) : Plain β := { m with items := b :: m.items }

/-- What an operation makes of the model if it succeeds. -/
def control : Control → Plain β → Plain β
  | .clear, _ | .reset, _ => {}
  | .save, m => { m with saved := some m.items }
  | .restore, m => { items := m.saved.getD m.items }
  | .forget, m => { items := m.items }
  | .size, m | .isEmpty, m | .capacity, m | .hasSnapshot, m | .toList, m => m

/-- The same for the operations on elements, `put` adding the note to a new element. -/
def carry (put : α → β) : Op α → Plain β → Plain β
  | .push v, m => m.push (put v)
  | .pop, m => { m with items := m.items.tail }
  | .control k, m => m.control k
  | .peek, m | .null, m | .live, m | .step _, m => m

variable {m m' : Plain β}

theorem mem_all {b : β} : b ∈ m.all ↔ b ∈ m.items ∨ ∃ l, m.saved = some l ∧ b ∈ l := by
  obtain ⟨items, saved⟩ := m
  cases saved <;> simp [all]

theorem all_map (f : β → γ) (m : Plain β) : (m.map f).all = m.all.map f := by
  obtain ⟨items, saved⟩ := m
  cases saved <;> simp [all, map]

theorem map_control (f : β → γ) (k : Control) (m : Plain β) :
    (m.control k).map f = (m.map f).control k := by
  obtain ⟨items, saved⟩ := m
  cases k <;> cases saved <;> rfl

theorem map_carry {put : α → β} {put' : α → γ} {f : β → γ} (hf : ∀ v, f (put v) = put' v)
    (op : Op α) (m : Plain β) : (m.carry put op).map f = (m.map f).carry put' op := by
  cases op with
  | push v => simp [carry, push, map, hf]
  | pop => simp [carry, map]
  | control k => exact map_control f k m
  | peek | null | live | step => rfl

/-- No operation but a push brings anything new. -/
theorem mem_all_control {k : Control} {b : β} (h : b ∈ (m.control k).all) : b ∈ m.all := by
  obtain ⟨items, saved⟩ := m
  cases k <;> cases saved <;> simp_all [control, all]

theorem mem_all_push {b new : β} (h : b ∈ (m.push new).all) : b = new ∨ b ∈ m.all := by
  simpa [push, all, or_assoc] using h

theorem mem_all_carry {put : α → β} {op : Op α} {b : β} (h : b ∈ (m.carry put op).all) :
    b ∈ m.all ∨ ∃ v, op = .push v ∧ b = put v := by
  cases op with
  | push v => exact (mem_all_push h).symm.imp_right fun hb => ⟨v, rfl, hb⟩
  | pop =>
    refine .inl (mem_all.mpr ((mem_all.mp h).imp_left ?_))
    exact List.mem_of_mem_tail
  | control k => exact .inl (mem_all_control h)
  | peek | null | live | step => exact .inl h

/-! ### What the model allows -/

theorem eq_control_of_allows {capacity : Nat} {k : Control} {a : Answer β}
    (h : m.AllowsControl capacity k (.ok a) m') : m' = m.control k := by
  obtain ⟨items, saved⟩ := m
  cases k with
  | size | isEmpty | capacity | hasSnapshot | toList | reset => exact h.2
  | clear | save | restore | forget => cases saved <;> simp_all [AllowsControl, control]

theorem eq_carry_of_allows [BEq α] {m m' : Plain α} {capacity : Nat} {null : α} {op : Op α}
    {a : Answer α} (h : m.Allows capacity null op (.ok a) m') : m' = m.carry id op := by
  cases op with
  | push v =>
    simp only [Allows] at h
    split at h
    · cases h.1
    · rcases h with ⟨-, hm⟩ | ⟨hoverflow, -⟩
      · exact hm
      · cases hoverflow
  | pop =>
    obtain ⟨items, saved⟩ := m
    cases items with
    | nil => cases h.1
    | cons v rest => exact h.2
  | peek =>
    obtain ⟨items, saved⟩ := m
    cases items <;> exact h.2
  | null | live | step => exact h.2
  | control k => exact eq_control_of_allows h

end Plain

variable [BEq α] {s t : Stack α} {capacity : Nat} {null : α}

theorem mem_all_plain {v : α} : v ∈ s.plain.all ↔ s.Retains v := by
  rw [Plain.mem_all, plain]
  cases hp : s.snapshot with
  | none => simp [retains_of_unsaved hp]
  | some p => simp [retains_of_saved hp]

theorem plain_of_success (hs : s.Sound capacity null) (hnull : (null == null) = true) {op : Op α}
    {a : Answer α} (h : attempt op.perform s = (.ok a, t)) : t.plain = s.plain.carry id op := by
  have hallows := (op_follows hs hnull op).2
  rw [h] at hallows
  exact Plain.eq_carry_of_allows hallows

theorem plain_of_control (hs : s.Sound capacity null) (hnull : (null == null) = true) {k : Control}
    {action : StackM α Unit} (hk : k.perform = action >>= fun _ => pure .done)
    (h : attempt action s = (.ok (), t)) : t.plain = s.plain.control k := by
  have hop : attempt (Op.control k).perform s = (.ok .done, t) := by
    rw [Op.perform, hk, attempt_bind_pure, h]
    rfl
  exact plain_of_success hs hnull hop

end Stack
end Narrative
