import Narrative.CallStack.Op
import Narrative.Proofs.CallStack.Leaving
import Narrative.Proofs.Stack.Below

/-! Call stacks with the same scopes, the frames of the one beginning no higher up than those of the
other. The lower one may have set in place what the upper one hides under newer entries. -/
namespace Narrative

/-- The same scopes, the top and the base of every frame no higher than in the other sheet. -/
structure Sheet.Lower (r r' : Sheet Entry) : Prop where
  proper : r.Proper
  proper' : r'.Proper
  top_le : r.top ≤ r'.top
  scopes_eq : r.scopes = r'.scopes
  marks_le : List.Forall₂ (· ≤ ·) r.marks r'.marks

namespace CallStack
open Stack

theorem lower_empty : Sheet.Lower ⟨0, []⟩ ⟨0, []⟩ where
  proper := by intro e he; cases he
  proper' := by intro e he; cases he
  top_le := Nat.le_refl 0
  scopes_eq := rfl
  marks_le := .nil

theorem proper_cons {r : Sheet Entry} {e : Entry} (he : e.Proper) (h : r.Proper) (n m : Nat) :
    (Sheet.mk n ((m, e) :: r.cells)).Proper := by
  intro e' he'
  rcases List.mem_cons.mp he' with rfl | hmem
  · exact he
  · exact h e' hmem

theorem marks_cons (n m : Nat) (e : Entry) (cells : List (Nat × Entry)) (k : Nat) :
    (Sheet.mk n ((m, e) :: cells)).marks =
      if e.isBoundary then m :: (Sheet.mk k cells).marks else (Sheet.mk k cells).marks := by
  by_cases he : e.isBoundary = true <;> simp [Sheet.marks, he]

theorem lower_push {e : Entry} (he : e.Proper) {r r' : Sheet Entry} {m n : Nat}
    (h : r.Lower r') (hmn : m ≤ n) :
    Sheet.Lower ⟨m + 1, (m, e) :: r.cells⟩ ⟨n + 1, (n, e) :: r'.cells⟩ where
  proper := proper_cons he h.proper _ _
  proper' := proper_cons he h.proper' _ _
  top_le := Nat.succ_le_succ hmn
  scopes_eq := congrArg (Scopes.add e) h.scopes_eq
  marks_le := by
    rw [marks_cons _ _ _ _ r.top, marks_cons _ _ _ _ r'.top]
    split
    · exact .cons hmn h.marks_le
    · exact h.marks_le

/-- Two call stacks in step, or the second one ahead with a save. -/
abbrev Below (ahead : Bool) (s t : CallStack) : Prop :=
  Stack.Below Sheet.Lower Entry.null ahead s t

section Below
variable {ahead : Bool} {s t : CallStack}

theorem wellFramed_lower (h : Below ahead s t) : WellFramed s := by
  refine ⟨h.lower, h.layout.null_lower, h.layout.now.proper, fun r hr => ?_⟩
  obtain ⟨-, r', -, hrr⟩ := h.layout.saved.of_lower hr
  exact hrr.proper

theorem wellFramed_upper (h : Below ahead s t) : WellFramed t := by
  refine ⟨h.upper, h.layout.null_upper, h.layout.now.proper', fun r' hr' => ?_⟩
  obtain ⟨r, hrr⟩ := h.layout.saved.of_upper hr'
  exact hrr.proper'

theorem get?_eq_of_below (h : Below ahead s t) (name : NameHash) : get? s name = get? t name := by
  by_cases hname : name.isValid = true
  · rw [← lookup_scopes (wellFramed_lower h) hname, ← lookup_scopes (wellFramed_upper h) hname,
      h.layout.now.scopes_eq]
  · simp [get?, find, hname]

theorem hasFrame_eq_of_below (h : Below ahead s t) : hasFrame s = hasFrame t := by
  rw [hasFrame_eq (wellFramed_lower h), hasFrame_eq (wellFramed_upper h), h.layout.now.scopes_eq]

theorem mirrors_push_proper {e : Entry} (he : e.Proper) :
    Mirrors (Below ahead) (Stack.push e) :=
  mirrors_push (fun _ _ h => h.top_le) fun _ _ _ _ h hmn => lower_push he h hmn

/-! ### Setting a variable -/

/-- A variable set in place below leaves the lower stack where it is. -/
theorem below_of_assigned {name : NameHash} {value : Value} {s' t' : CallStack}
    (h : Below ahead s t) (hs : Assigned s name value s') (ht : WellFramed t')
    (hcap : t'.capacity = t.capacity) (htop : t.layout.now.top ≤ t'.layout.now.top)
    (hscopes : t'.layout.now.scopes = t.layout.now.scopes.assign name value)
    (hmarks : t'.layout.now.marks = t.layout.now.marks)
    (hsaved : Layout.SavedBelow Sheet.Lower ahead none t'.layout.saved) : Below ahead s' t' := by
  refine ⟨hs.wellFramed.wellFormed, ht.wellFormed, ?_, hs.wellFramed.null_eq, ht.null_eq,
    ⟨hs.wellFramed.proper, ht.proper, ?_, ?_, ?_⟩, ?_⟩
  · exact hs.capacity_eq.trans (h.capacity_eq.trans hcap.symm)
  · rw [hs.top_eq]
    exact Nat.le_trans h.layout.now.top_le htop
  · rw [hs.scopes_eq, hscopes, h.layout.now.scopes_eq]
  · rw [hs.marks_eq, hmarks]
    exact h.layout.now.marks_le
  · rw [hs.saved_eq]
    exact hsaved

theorem marks_push (s : CallStack) {e : Entry} (he : e.isBoundary = false) :
    (s.layout.push e).now.marks = s.layout.now.marks := by
  rw [Layout.push, marks_cons _ _ _ _ s.layout.now.top, he]
  rfl

theorem top_le_push (s : CallStack) (e : Entry) :
    s.layout.now.top ≤ (s.layout.push e).now.top := by
  change s.layout.now.top ≤ s.layout.frontier + 1
  rw [frontier_layout]
  exact Nat.le_succ_of_le s.top_le_frontier

theorem mirrors_set (name : NameHash) (value : Value) :
    Mirrors (Below ahead) (CallStack.set name value) := by
  intro s t h x t' ht
  have hsf := wellFramed_lower h
  have htf := wellFramed_upper h
  have hget := get?_eq_of_below h name
  rcases set_cases htf name value with
    ⟨-, hf⟩ | ⟨hname, hsnap, u, hok, hu⟩ | ⟨hname, -, hpush⟩
  · rw [hf] at ht
    cases ht
  · -- the upper stack is not saved and sets in place, so the lower one does
    rw [hok] at ht
    cases ht
    obtain ⟨rfl, hnone⟩ := h.layout.saved.of_upper_none (saved_layout_eq_none.mpr hsnap)
    rcases set_cases hsf name value with ⟨hn, -⟩ | ⟨-, -, u', hok', hu'⟩ | ⟨-, hn, -⟩
    · rw [hn] at hname
      cases hname
    · refine ⟨u', hok', below_of_assigned h hu' hu.wellFramed hu.capacity_eq
        (Nat.le_of_eq hu.top_eq.symm) hu.scopes_eq hu.marks_eq ?_⟩
      rw [hu.saved_eq]
      exact .unsaved
    · exact absurd (hget.symm.trans (hn (saved_layout_eq_none.mp hnone))) hu.found
  · -- the upper stack pushes; the lower one may set in place, and then is the shorter for it
    rw [hpush] at ht
    have he : (⟨name, value⟩ : Entry).Proper := .inl hname
    rcases set_cases hsf name value with ⟨hn, -⟩ | ⟨-, hsnap, u', hok', hu'⟩ | ⟨-, -, hpush'⟩
    · rw [hn] at hname
      cases hname
    · rcases push_proper_cases htf he with ⟨-, hf⟩ | ⟨u, -, hok, hu, hul⟩
      · rw [hf] at ht
        cases ht
      · rw [hok] at ht
        cases ht
        refine ⟨u', hok', below_of_assigned h hu' hu ?_ ?_ ?_ ?_ ?_⟩
        · exact congrArg Layout.capacity hul
        · rw [hul]
          exact top_le_push t _
        · rw [hul]
          exact Scopes.ofEntries_variable hname _
        · rw [hul]
          exact marks_push t (Entry.isBoundary_of_isValid hname)
        · have hsaved := h.layout.saved
          rw [saved_layout_eq_none.mpr hsnap] at hsaved
          rw [hul]
          exact hsaved
    · rw [hpush']
      exact mirrors_push_proper he h ht

/-! ### Leaving a frame -/

theorem mirrors_popFrame : Mirrors (Below ahead) popFrame := by
  intro s t h x t' ht
  have hscopes := h.layout.now.scopes_eq
  rcases popFrame_cases (wellFramed_upper h) with
    ⟨-, -, hf⟩ | ⟨-, -, hf⟩ | ⟨record, u, hok, hu⟩
  · rw [hf] at ht
    cases ht
  · rw [hf] at ht
    cases ht
  · rw [hok] at ht
    cases ht
    obtain ⟨vars, hframes⟩ := hu.frames_eq
    rw [← hscopes] at hframes
    -- both have the same scopes, so the lower stack has this frame too
    rcases popFrame_cases (wellFramed_lower h) with
      ⟨hnil, -, -⟩ | ⟨hnil, -, -⟩ | ⟨record', u', hok', hu'⟩
    · rw [hnil] at hframes
      cases hframes
    · rw [hnil] at hframes
      cases hframes
    · obtain ⟨vars', hframes'⟩ := hu'.frames_eq
      rw [hframes'] at hframes
      obtain ⟨hfirst, hrest⟩ := List.cons.inj hframes
      obtain ⟨rfl, -⟩ := Prod.mk.inj hfirst
      have hmarks := h.layout.now.marks_le
      rw [hu'.marks_eq, hu.marks_eq] at hmarks
      cases hmarks with
      | cons head tail =>
        have hbase := hu'.base_eq.trans (hscopes ▸ hu.base_eq.symm)
        refine ⟨u', hok', hu'.wellFramed.wellFormed, hu.wellFramed.wellFormed, ?_,
          hu'.wellFramed.null_eq, hu.wellFramed.null_eq,
          ⟨hu'.wellFramed.proper, hu.wellFramed.proper, head, ?_, tail⟩, ?_⟩
        · exact hu'.capacity_eq.trans (h.capacity_eq.trans hu.capacity_eq.symm)
        · exact Scopes.ext hbase hrest
        · rw [hu'.saved_eq, hu.saved_eq]
          exact h.layout.saved

end Below

end CallStack
end Narrative
