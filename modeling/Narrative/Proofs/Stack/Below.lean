import Mathlib.Data.List.Forall2
import Narrative.Proofs.Stack.Transitions
import Narrative.Stack.Op

/-! Stacks with the same elements, the one no higher up in its slots than the other. Whatever finds
room on the upper one finds room on the lower one. -/
namespace Narrative
variable {α : Type}

/-- The same elements, each at least as low in the first sheet as in the second. -/
structure Sheet.Packed (r r' : Sheet α) : Prop where
  top_le : r.top ≤ r'.top
  cells : List.Forall₂ (fun c c' => c.1 ≤ c'.1 ∧ c.2 = c'.2) r.cells r'.cells

theorem Sheet.Packed.elements_eq {r r' : Sheet α} (h : r.Packed r') : r.elements = r'.elements := by
  have hsnd : List.Forall₂ (· = ·) (r.cells.map Prod.snd) (r'.cells.map Prod.snd) := by
    rw [List.forall₂_map_left_iff, List.forall₂_map_right_iff]
    exact h.cells.imp fun _ _ hc => hc.2
  rwa [List.forall₂_eq_eq_eq] at hsnd

namespace Layout

/-- The saves of two stacks. If the second is ahead it alone is saved, otherwise both or neither. -/
inductive SavedBelow (R : Sheet α → Sheet α → Prop) :
    Bool → Option (Sheet α) → Option (Sheet α) → Prop
  | unsaved : SavedBelow R false none none
  | saved {r r' : Sheet α} (h : R r r') : SavedBelow R false (some r) (some r')
  | ahead {r r' : Sheet α} (h : R r r') : SavedBelow R true none (some r')

section SavedBelow
variable {R : Sheet α → Sheet α → Prop} {ahead : Bool} {o o' : Option (Sheet α)} {r r' : Sheet α}

theorem SavedBelow.of_lower (h : SavedBelow R ahead o o') (ho : o = some r) :
    ahead = false ∧ ∃ r', o' = some r' ∧ R r r' := by
  subst ho
  cases h with
  | saved hr => exact ⟨rfl, _, rfl, hr⟩

theorem SavedBelow.of_upper (h : SavedBelow R ahead o o') (ho : o' = some r') : ∃ r, R r r' := by
  subst ho
  cases h with
  | saved hr => exact ⟨_, hr⟩
  | ahead hr => exact ⟨_, hr⟩

theorem SavedBelow.of_upper_none (h : SavedBelow R ahead o o') (ho : o' = none) :
    ahead = false ∧ o = none := by
  subst ho
  cases h
  exact ⟨rfl, rfl⟩

theorem SavedBelow.lower_none (h : SavedBelow R true o o') : o = none := by
  cases h
  rfl

theorem SavedBelow.isSome_eq (h : SavedBelow R false o o') : o.isSome = o'.isSome := by
  cases h <;> rfl

end SavedBelow

/-- Two layouts that are related sheet by sheet. -/
structure Below (R : Sheet α → Sheet α → Prop) (null : α) (ahead : Bool) (l l' : Layout α) :
    Prop where
  capacity_eq : l.capacity = l'.capacity
  null_lower : l.null = null
  null_upper : l'.null = null
  now : R l.now l'.now
  saved : SavedBelow R ahead l.saved l'.saved

variable {R : Sheet α → Sheet α → Prop} {null : α} {ahead : Bool} {l l' : Layout α}

theorem Below.frontier_le (htop : ∀ ⦃r r'⦄, R r r' → r.top ≤ r'.top)
    (h : Below R null ahead l l') : l.frontier ≤ l'.frontier := by
  have hnow := htop h.now
  have hupper : l'.now.top ≤ l'.frontier := by
    unfold frontier
    split
    · exact Nat.le_max_left _ _
    · exact Nat.le_refl _
  cases hs : l.saved with
  | none =>
    simp only [frontier, hs]
    exact Nat.le_trans hnow hupper
  | some r =>
    obtain ⟨-, r', hs', hr⟩ := h.saved.of_lower hs
    have hsave := htop hr
    simp only [frontier, hs, hs']
    omega

end Layout

namespace Stack
variable [BEq α]

structure Below (R : Sheet α → Sheet α → Prop) (null : α) (ahead : Bool) (s t : Stack α) :
    Prop where
  lower : s.WellFormed
  upper : t.WellFormed
  layout : Layout.Below R null ahead s.layout t.layout

section Below
variable {R : Sheet α → Sheet α → Prop} {null : α} {ahead : Bool} {s t : Stack α}

theorem Below.null_eq (h : Below R null ahead s t) : s.null = t.null :=
  h.layout.null_lower.trans h.layout.null_upper.symm

theorem Below.capacity_eq (h : Below R null ahead s t) : s.capacity = t.capacity :=
  h.layout.capacity_eq

theorem Below.frontier_le (htop : ∀ ⦃r r'⦄, R r r' → r.top ≤ r'.top)
    (h : Below R null ahead s t) : s.frontier ≤ t.frontier := by
  have hle := h.layout.frontier_le htop
  rwa [frontier_layout, frontier_layout] at hle

theorem Below.hasSnapshot_eq (h : Below R null false s t) : s.hasSnapshot = t.hasSnapshot := by
  have hsome := h.layout.saved.isSome_eq
  simpa [Stack.layout, hasSnapshot] using hsome

theorem below_ofSlots (hempty : R ⟨0, []⟩ ⟨0, []⟩) (slots : Array α) (null : α) :
    Below R null false (ofSlots slots null) (ofSlots slots null) :=
  ⟨wellFormed_ofSlots slots null, wellFormed_ofSlots slots null, rfl, rfl, rfl, hempty, .unsaved⟩

/-- A save of the upper stack alone sets it ahead. -/
theorem Below.marked_upper (h : Below R null false s t) (ht : t.snapshot = none) :
    Below R null true s t.marked := by
  refine ⟨h.lower, wellFormed_marked h.upper ht, ?_⟩
  rw [layout_marked ht]
  have hs := (h.layout.saved.of_upper_none (saved_layout_eq_none.mpr ht)).2
  refine { h.layout with saved := ?_ }
  rw [hs]
  exact .ahead h.layout.now

/-- Once that save is forgotten, the two are level again. -/
theorem Below.committed_upper (hnull : (null == null) = true) (h : Below R null true s t)
    {p : Snapshot} (hp : t.snapshot = some p) : Below R null false s (t.committed p) := by
  have hself : (t.null == t.null) = true := by
    rw [show t.null = null from h.layout.null_upper]
    exact hnull
  refine ⟨h.lower, wellFormed_committed h.upper hself hp, ?_⟩
  rw [layout_committed hself hp]
  refine { h.layout with saved := ?_ }
  rw [h.layout.saved.lower_none]
  exact .unsaved

/-! ### Clear, save, restore and forget -/

theorem mirrors_clear (hempty : R ⟨0, []⟩ ⟨0, []⟩) :
    Mirrors (Below R null ahead) (clear : StackM α Unit) := by
  intro s t h x t' ht
  rcases clear_cases t with ⟨-, hf⟩ | ⟨hn, hok⟩
  · rw [hf] at ht
    cases ht
  · rw [hok] at ht
    cases ht
    obtain ⟨rfl, hl⟩ := h.layout.saved.of_upper_none hn
    rcases clear_cases s with ⟨⟨r, hr⟩, -⟩ | ⟨-, hok'⟩
    · rw [hl] at hr
      cases hr
    · refine ⟨s.reset, hok', wellFormed_reset s, wellFormed_reset t, ?_⟩
      exact { h.layout with now := hempty, saved := .unsaved }

theorem mirrors_save : Mirrors (Below R null false) (save : StackM α Unit) := by
  intro s t h x t' ht
  rcases save_cases h.upper with ⟨-, hf⟩ | ⟨hn, u, hok, hu, hul⟩
  · rw [hf] at ht
    cases ht
  · rw [hok] at ht
    cases ht
    rcases save_cases h.lower with ⟨⟨r, hr⟩, -⟩ | ⟨-, u', hok', hu', hul'⟩
    · rw [(h.layout.saved.of_upper_none hn).2] at hr
      cases hr
    · refine ⟨u', hok', hu', hu, ?_⟩
      rw [hul, hul']
      exact { h.layout with saved := .saved h.layout.now }

theorem mirrors_restore : Mirrors (Below R null false) (restore : StackM α Unit) := by
  intro s t h x t' ht
  rcases restore_cases h.upper with ⟨-, hf⟩ | ⟨r, u, hr, hok, hu, hul⟩
  · rw [hf] at ht
    cases ht
  · rw [hok] at ht
    cases ht
    have hsome := h.layout.saved.isSome_eq
    rcases restore_cases h.lower with ⟨hn, -⟩ | ⟨r', u', hr', hok', hu', hul'⟩
    · rw [hn, hr] at hsome
      cases hsome
    · refine ⟨u', hok', hu', hu, ?_⟩
      obtain ⟨-, q, hq, hrr⟩ := h.layout.saved.of_lower hr'
      obtain rfl : r = q := Option.some.inj (hr.symm.trans hq)
      rw [hul, hul']
      exact { h.layout with now := hrr, saved := .unsaved }

theorem mirrors_forget (hnull : (null == null) = true) :
    Mirrors (Below R null false) (forget : StackM α Unit) := by
  intro s t h x t' ht
  have hs : (s.null == s.null) = true := by
    rw [show s.null = null from h.layout.null_lower]
    exact hnull
  rcases forget_cases h.upper (h.null_eq ▸ hs) with ⟨-, hf⟩ | ⟨r, u, hr, hok, hu, hul⟩
  · rw [hf] at ht
    cases ht
  · rw [hok] at ht
    cases ht
    rcases forget_cases h.lower hs with ⟨hn, -⟩ | ⟨r', u', hr', hok', hu', hul'⟩
    · have hsome := h.layout.saved.isSome_eq
      rw [hn, hr] at hsome
      cases hsome
    · refine ⟨u', hok', hu', hu, ?_⟩
      rw [hul, hul']
      exact { h.layout with saved := .unsaved }

/-! ### Push and pop -/

theorem mirrors_push {v : α} (htop : ∀ ⦃r r'⦄, R r r' → r.top ≤ r'.top)
    (hpush : ∀ ⦃r r' m n⦄, R r r' → m ≤ n →
      R ⟨m + 1, (m, v) :: r.cells⟩ ⟨n + 1, (n, v) :: r'.cells⟩) :
    Mirrors (Below R null ahead) (push v) := by
  intro s t h x t' ht
  have hfront := h.frontier_le htop
  have hcap := h.capacity_eq
  rcases push_cases v h.upper with ⟨-, hf⟩ | ⟨-, -, hf⟩ | ⟨u, hv, hroom, hok, hu, hul⟩
  · rw [hf] at ht
    cases ht
  · rw [hf] at ht
    cases ht
  · rw [hok] at ht
    cases ht
    rcases push_cases v h.lower with ⟨hv', -⟩ | ⟨-, hfull, -⟩ | ⟨u', -, -, hok', hu', hul'⟩
    · rw [h.null_eq, hv] at hv'
      cases hv'
    · -- room on the upper stack is room on the lower one
      omega
    · refine ⟨u', hok', hu', hu, ?_⟩
      rw [hul, hul']
      have hle := h.layout.frontier_le htop
      exact { h.layout with now := hpush h.layout.now hle }

end Below

section Packed
variable {null : α} {ahead : Bool}

omit [BEq α] in
theorem packed_empty : Sheet.Packed (α := α) ⟨0, []⟩ ⟨0, []⟩ := ⟨Nat.le_refl 0, .nil⟩

theorem mirrors_push_packed (v : α) : Mirrors (Below Sheet.Packed null ahead) (push v) :=
  mirrors_push (fun _ _ h => h.top_le) fun _ _ _ _ h hmn =>
    ⟨Nat.succ_le_succ hmn, .cons ⟨hmn, rfl⟩ h.cells⟩

theorem mirrors_pop : Mirrors (Below Sheet.Packed null ahead) (pop : StackM α α) := by
  intro s t h x t' ht
  have hcells := h.layout.now.cells
  rcases pop_cases h.upper with ⟨-, hf⟩ | ⟨i, v, rest, u, hc, hok, hu, hul⟩
  · rw [hf] at ht
    cases ht
  · rw [hok] at ht
    cases ht
    rw [hc] at hcells
    rcases pop_cases h.lower with ⟨hc', -⟩ | ⟨i', v', rest', u', hc', hok', hu', hul'⟩
    · rw [hc'] at hcells
      cases hcells
    · rw [hc'] at hcells
      cases hcells with
      | cons head tail =>
        obtain ⟨hi, rfl⟩ : i' ≤ i ∧ v' = x := head
        refine ⟨u', hok', hu', hu, ?_⟩
        rw [hul, hul']
        exact { h.layout with now := ⟨hi, tail⟩ }

theorem toList_eq_of_below {s t : Stack α} (h : Below Sheet.Packed null ahead s t) :
    s.toList = t.toList := by
  have helements := h.layout.now.elements_eq
  rw [← elements_sheet, ← elements_sheet]
  exact helements

theorem mirrors_peek : Mirrors (Below Sheet.Packed null ahead) (peek : StackM α α) := by
  intro s t h x t' ht
  have hlist := toList_eq_of_below h
  rcases peek_cases t with ⟨-, hf⟩ | ⟨v, rest, hl, hok⟩
  · rw [hf] at ht
    cases ht
  · rw [hok] at ht
    cases ht
    rcases peek_cases s with ⟨hl', -⟩ | ⟨v', rest', hl', hok'⟩
    · rw [hl', hl] at hlist
      cases hlist
    · rw [hl', hl] at hlist
      obtain ⟨rfl, -⟩ := List.cons.inj hlist
      exact ⟨s, hok', h⟩

theorem size_eq_of_below {s t : Stack α} (h : Below Sheet.Packed null ahead s t) :
    s.size = t.size := by
  rw [size_eq_length h.lower, size_eq_length h.upper, toList_eq_of_below h]

end Packed

end Stack
end Narrative
