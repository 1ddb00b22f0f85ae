import Narrative.Proofs.CallStack.Scopes
import Narrative.Proofs.Stack.Transitions

/-! All that an operation on a call stack can do, told by the scopes that its entries describe and by
the slots in which its frames begin. -/
namespace Narrative

namespace Sheet

def scopes (r : Sheet Entry) : Scopes := .ofEntries r.elements

/-- The slots in which frames begin, the innermost first. -/
def marks (r : Sheet Entry) : List Nat :=
  (r.cells.filter fun c => c.2.isBoundary).map Prod.fst

def Proper (r : Sheet Entry) : Prop := ∀ e ∈ r.elements, e.Proper

end Sheet

namespace CallStack
open Stack

/-- A call stack whose entries, those of the save included, are variables and bases of frames. -/
structure WellFramed (s : CallStack) : Prop where
  wellFormed : s.WellFormed
  null_eq : s.null = Entry.null
  proper : s.layout.now.Proper
  proper_saved : ∀ r, s.layout.saved = some r → r.Proper

theorem wellFramed_ofSlots (slots : Array Entry) : WellFramed (ofSlots slots Entry.null) where
  wellFormed := wellFormed_ofSlots slots Entry.null
  null_eq := rfl
  proper := by intro e he; cases he
  proper_saved := by intro r hr; cases hr

theorem WellFramed.proper_slot {s : CallStack} (h : WellFramed s) {i : Nat}
    (hi : i ∈ s.positions) : (s.slot i).Proper := by
  refine h.proper (s.slot i) ?_
  change s.slot i ∈ s.sheet.elements
  rw [elements_sheet, toList]
  exact List.mem_map_of_mem hi

theorem scopes_sheet (s : CallStack) : s.sheet.scopes = .ofEntries (s.positions.map s.slot) := by
  rw [Sheet.scopes, elements_sheet, toList]

theorem marks_sheet (s : CallStack) :
    s.sheet.marks = s.positions.filter fun i => (s.slot i).isBoundary := by
  simp [Sheet.marks, sheet, List.filter_map, Function.comp_def]

/-! ### Looking up -/

section Locate
variable {s : CallStack} {name : NameHash}

theorem locate_some {positions : List Nat} {i : Nat} (h : locate s name positions = some i) :
    i ∈ positions ∧ (s.slot i).name = name := by
  induction positions with
  | nil => cases h
  | cons j rest ih =>
    by_cases hname : (s.slot j).name = name
    · rw [locate, if_pos hname] at h
      obtain rfl := Option.some.inj h
      exact ⟨List.mem_cons_self, hname⟩
    · rw [locate, if_neg hname] at h
      by_cases hb : (s.slot j).isBoundary
      · rw [if_pos hb] at h
        cases h
      · rw [if_neg hb] at h
        obtain ⟨hmem, hi⟩ := ih h
        exact ⟨List.mem_cons_of_mem j hmem, hi⟩

/-- The walk down to the next boundary looks a name up in the innermost scope. -/
theorem lookup_current (hname : name.isValid = true) {positions : List Nat}
    (h : ∀ i ∈ positions, (s.slot i).Proper) :
    (Scopes.ofEntries (positions.map s.slot)).current.lookup name =
      (locate s name positions).map fun i => (s.slot i).value := by
  induction positions with
  | nil => rfl
  | cons j rest ih =>
    have hrest := ih fun i hi => h i (List.mem_cons_of_mem j hi)
    rw [List.map_cons, locate]
    rcases h j List.mem_cons_self with hv | ⟨record, hr⟩
    · rw [Scopes.ofEntries_variable hv, Scopes.current_assign]
      by_cases heq : (s.slot j).name = name
      · rw [if_pos heq, heq, Finmap.lookup_insert]
        rfl
      · rw [if_neg heq, if_neg (by simp [Entry.isBoundary_of_isValid hv]),
          Finmap.lookup_insert_of_ne _ (Ne.symm heq), hrest]
    · have hne : ¬ (s.slot j).name = name := by
        rw [hr]
        rintro rfl
        cases hname
      rw [if_neg hne, hr, if_pos (Entry.isBoundary_boundary record), Scopes.ofEntries_boundary]
      rfl

theorem find_eq (hname : name.isValid = true) : find s name = locate s name s.positions := by
  simp [find, hname]

theorem lookup_scopes (hs : WellFramed s) (hname : name.isValid = true) :
    s.layout.now.scopes.current.lookup name = get? s name := by
  change s.sheet.scopes.current.lookup name = _
  rw [scopes_sheet, lookup_current hname fun i hi => hs.proper_slot hi, get?, find_eq hname]

end Locate

/-! ### Assigning in place -/

theorem slot_assign (s : CallStack) (i : Nat) (value : Value) (j : Nat) (hi : i < s.capacity) :
    (assign s i value).slot j = if i = j then ⟨(s.slot j).name, value⟩ else s.slot j := by
  have hsize : i < s.slots.size := hi
  by_cases hij : i = j
  · subst hij
    simp [slot, assign, hsize, Array.getElem_modify]
  · simp [slot, assign, hij, Array.getElem?_modify]

theorem map_slot_assign {s : CallStack} {i : Nat} (value : Value) (hi : i < s.capacity)
    {positions : List Nat} (h : i ∉ positions) :
    positions.map (assign s i value).slot = positions.map s.slot := by
  refine List.map_congr_left fun j hj => ?_
  rw [slot_assign s i value j hi, if_neg]
  rintro rfl
  exact h hj

section Assign
variable {s : CallStack} {i : Nat} (value : Value) (hi : i < s.capacity)
  (hvalid : (s.slot i).name.isValid = true)
include hi hvalid

theorem isBoundary_slot_assign (j : Nat) :
    ((assign s i value).slot j).isBoundary = (s.slot j).isBoundary := by
  rw [slot_assign s i value j hi]
  split
  · next hij =>
    subst hij
    rw [Entry.isBoundary_of_isValid hvalid]
    exact Entry.isBoundary_of_isValid hvalid
  · rfl

theorem proper_slot_assign {j : Nat} (h : (s.slot j).Proper) :
    ((assign s i value).slot j).Proper := by
  rw [slot_assign s i value j hi]
  split
  · next hij =>
    subst hij
    exact .inl hvalid
  · exact h

theorem beq_null_slot_assign (j : Nat) :
    ((assign s i value).slot j == Entry.null) = (s.slot j == Entry.null) := by
  rw [slot_assign s i value j hi]
  split
  · next hij =>
    subst hij
    rw [Entry.beq_null_of_isValid hvalid]
    exact Entry.beq_null_of_isValid hvalid
  · rfl

theorem positions_assign (hnull : s.null = Entry.null) :
    (assign s i value).positions = s.positions := by
  refine positionsBelow_congr fun j _ => ?_
  have hslot := beq_null_slot_assign value hi hvalid j
  rw [← hnull] at hslot
  change (s.bypassed j || (assign s i value).slot j == s.null) =
    (s.bypassed j || s.slot j == s.null)
  rw [hslot]

theorem wellFormed_assign (hs : s.WellFormed) (hnull : s.null = Entry.null)
    (hsnap : s.snapshot = none) : (assign s i value).WellFormed := by
  constructor
  · have hcap : (assign s i value).capacity = s.capacity := by simp [capacity, assign]
    rw [hcap]
    exact hs.top_le
  · refine hs.dead_eq.trans (tombstonesBelow_congr (fun _ _ => rfl) fun j _ => ?_)
    have hslot := beq_null_slot_assign value hi hvalid j
    rw [← hnull] at hslot
    exact hslot.symm
  · intro p hp
    exact absurd hp (by rw [show (assign s i value).snapshot = none from hsnap]; simp)

omit hi hvalid in
/-- A variable that is found is set by replacing its value where it lies. -/
theorem scopes_assign {name : NameHash} (hname : name.isValid = true) {positions : List Nat}
    (h : ∀ j ∈ positions, (s.slot j).Proper) (hlt : ∀ j ∈ positions, j < s.capacity)
    (hnodup : positions.Nodup) (hloc : locate s name positions = some i) :
    Scopes.ofEntries (positions.map (assign s i value).slot) =
      (Scopes.ofEntries (positions.map s.slot)).assign name value := by
  -- along the walk of `locate`: it passes variables of other names, and stops before any boundary
  induction positions with
  | nil => cases hloc
  | cons j rest ih =>
    obtain ⟨hmem, hi⟩ := locate_some hloc
    have hcap := hlt i hmem
    have hvalid : (s.slot i).name.isValid = true := by rw [hi]; exact hname
    have hj := h j List.mem_cons_self
    have hrest := fun j' hj' => h j' (List.mem_cons_of_mem j hj')
    obtain ⟨hnot, hnodup'⟩ := List.nodup_cons.mp hnodup
    rw [List.map_cons, List.map_cons]
    rw [locate] at hloc
    by_cases heq : (s.slot j).name = name
    · rw [if_pos heq] at hloc
      obtain rfl := Option.some.inj hloc
      rw [map_slot_assign value hcap hnot, slot_assign s j value j hcap, if_pos rfl,
        Scopes.ofEntries_variable hvalid,
        Scopes.ofEntries_variable (by exact hvalid), heq, Scopes.assign_assign]
    · rw [if_neg heq] at hloc
      by_cases hb : (s.slot j).isBoundary
      · rw [if_pos hb] at hloc
        cases hloc
      · rw [if_neg hb] at hloc
        have hvj := hj.isValid (by simpa using hb)
        have hne : i ≠ j := by
          rintro rfl
          exact heq hi
        rw [slot_assign s i value j hcap, if_neg hne, Scopes.ofEntries_variable hvj,
          Scopes.ofEntries_variable hvj,
          ih hrest (fun j' hj' => hlt j' (List.mem_cons_of_mem j hj')) hnodup' hloc,
          Scopes.assign_comm _ (Ne.symm heq)]

end Assign

/-- A variable was set in place: it lies where it lay. -/
structure Assigned (s : CallStack) (name : NameHash) (value : Value) (t : CallStack) : Prop where
  found : get? s name ≠ none
  wellFramed : WellFramed t
  capacity_eq : t.capacity = s.capacity
  top_eq : t.layout.now.top = s.layout.now.top
  scopes_eq : t.layout.now.scopes = s.layout.now.scopes.assign name value
  marks_eq : t.layout.now.marks = s.layout.now.marks
  saved_eq : t.layout.saved = none

theorem assigned_assign {s : CallStack} (hs : WellFramed s) (hsnap : s.snapshot = none)
    {name : NameHash} (hname : name.isValid = true) {i : Nat} (hfind : find s name = some i)
    (value : Value) : Assigned s name value (assign s i value) := by
  have hfound : get? s name ≠ none := by simp [get?, hfind]
  rw [find_eq hname] at hfind
  obtain ⟨hmem, hi⟩ := locate_some hfind
  have hcap := hs.wellFormed.lt_capacity hmem
  have hvalid : (s.slot i).name.isValid = true := by rw [hi]; exact hname
  have hpos := positions_assign value hcap hvalid hs.null_eq
  have hsaved : (assign s i value).layout.saved = none := saved_layout_eq_none.mpr hsnap
  refine ⟨hfound, ⟨wellFormed_assign value hcap hvalid hs.wellFormed hs.null_eq hsnap, hs.null_eq,
    ?_, ?_⟩, by simp [capacity, assign], rfl, ?_, ?_, hsaved⟩
  · intro e he
    change e ∈ (assign s i value).sheet.elements at he
    rw [elements_sheet, toList, hpos] at he
    obtain ⟨j, hj, rfl⟩ := List.mem_map.mp he
    exact proper_slot_assign value hcap hvalid (hs.proper_slot hj)
  · intro r hr
    rw [hsaved] at hr
    cases hr
  · change (assign s i value).sheet.scopes = s.sheet.scopes.assign name value
    rw [scopes_sheet, scopes_sheet, hpos]
    exact scopes_assign value hname (fun j hj => hs.proper_slot hj)
      (fun j hj => hs.wellFormed.lt_capacity hj) s.nodup_positions hfind
  · change (assign s i value).sheet.marks = s.sheet.marks
    rw [marks_sheet, marks_sheet, hpos]
    exact List.filter_congr fun j _ => isBoundary_slot_assign value hcap hvalid j

theorem attempt_set_cases (s : CallStack) (name : NameHash) (value : Value) :
    name.isValid = false ∧ attempt (CallStack.set name value) s = (.error .reservedName, s) ∨
    (∃ i, name.isValid = true ∧ s.snapshot = none ∧ find s name = some i ∧
      attempt (CallStack.set name value) s = (.ok (), assign s i value)) ∨
    name.isValid = true ∧ (s.snapshot = none → find s name = none) ∧
      attempt (CallStack.set name value) s = attempt (Stack.push ⟨name, value⟩) s := by
  by_cases hname : name.isValid = true
  · by_cases hsnap : s.snapshot = none
    · cases hfind : find s name with
      | none =>
        refine .inr (.inr ⟨hname, fun _ => rfl, ?_⟩)
        simp [attempt, CallStack.set, hname, hfind]
      | some i =>
        refine .inr (.inl ⟨i, hname, hsnap, rfl, attempt_of_ok ?_⟩)
        simp [CallStack.set, hname, hasSnapshot, hsnap, hfind]
    · refine .inr (.inr ⟨hname, fun h => absurd h hsnap, ?_⟩)
      have hsaved : s.hasSnapshot = true := Option.isSome_iff_ne_none.mpr hsnap
      simp [attempt, CallStack.set, hname, hsaved]
  · exact .inl ⟨by simpa using hname, attempt_of_error (by simp [CallStack.set, hname])⟩

theorem set_cases {s : CallStack} (hs : WellFramed s) (name : NameHash) (value : Value) :
    name.isValid = false ∧ attempt (CallStack.set name value) s = (.error .reservedName, s) ∨
    name.isValid = true ∧ s.snapshot = none ∧
      (∃ t, attempt (CallStack.set name value) s = (.ok (), t) ∧ Assigned s name value t) ∨
    name.isValid = true ∧ (s.snapshot = none → get? s name = none) ∧
      attempt (CallStack.set name value) s = attempt (Stack.push ⟨name, value⟩) s := by
  rcases attempt_set_cases s name value with
    h | ⟨i, hname, hsnap, hfind, h⟩ | ⟨hname, hfind, h⟩
  · exact .inl h
  · have hset := assigned_assign hs hsnap hname hfind value
    exact .inr (.inl ⟨hname, hsnap, assign s i value, h, hset⟩)
  · exact .inr (.inr ⟨hname, fun hsnap => by simp [get?, hfind hsnap], h⟩)

end CallStack
end Narrative
