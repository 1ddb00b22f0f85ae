import Mathlib.Data.Finmap
import Narrative.CallStack.Basic

/-! Scopes: the variables outside any frame, and the frames with theirs. The entries of a call stack
describe scopes, of two entries with one name in one scope the upper one counting. -/
namespace Narrative

namespace Entry

/-- A variable or the base of a frame: nothing else is put on a call stack. -/
def Proper (e : Entry) : Prop := e.name.isValid = true ∨ ∃ record, e = boundary record

theorem isBoundary_of_isValid {e : Entry} (h : e.name.isValid = true) : e.isBoundary = false := by
  simp [isBoundary, h]

theorem isBoundary_boundary (record : Frame) : (boundary record).isBoundary = true := rfl

theorem beq_null_of_isValid {e : Entry} (h : e.name.isValid = true) : (e == null) = false := by
  have hname : (e.name == NameHash.invalid) = false := by
    simpa [NameHash.isValid, bne] using h
  change (e.name == NameHash.invalid && e.value == Value.none) = false
  rw [hname, Bool.false_and]

theorem beq_null_boundary (record : Frame) : (boundary record == null) = false := rfl

theorem null_beq_null : (null == null) = true := rfl

theorem Proper.eq_boundary {e : Entry} (h : e.Proper) (hb : e.isBoundary = true) :
    ∃ record, e = boundary record := by
  rcases h with hv | hr
  · rw [isBoundary_of_isValid hv] at hb
    cases hb
  · exact hr

theorem Proper.beq_null {e : Entry} (h : e.Proper) : (e == null) = false := by
  rcases h with hv | ⟨record, rfl⟩
  · exact beq_null_of_isValid hv
  · exact beq_null_boundary record

theorem Proper.isValid {e : Entry} (h : e.Proper) (hb : e.isBoundary = false) :
    e.name.isValid = true := by
  rcases h with hv | ⟨record, rfl⟩
  · exact hv
  · cases hb

end Entry

abbrev Vars := Finmap fun _ : NameHash => Value

/-- The variables outside any frame, and the frames that have begun, the innermost first. -/
@[ext] structure Scopes where
  base : Vars := ∅
  frames : List (Frame × Vars) := []

namespace Scopes

def current (m : Scopes) : Vars :=
  match m.frames with
  | [] => m.base
  | (_, vars) :: _ => vars

def assign (m : Scopes) (name : NameHash) (value : Value) : Scopes :=
  match m.frames with
  | [] => { m with base := m.base.insert name value }
  | (record, vars) :: rest => { m with frames := (record, vars.insert name value) :: rest }

def enter (m : Scopes) (record : Frame) : Scopes := { m with frames := (record, ∅) :: m.frames }

theorem current_assign (m : Scopes) (name : NameHash) (value : Value) :
    (m.assign name value).current = m.current.insert name value := by
  unfold assign current
  cases m.frames <;> rfl

theorem assign_assign (m : Scopes) (name : NameHash) (v w : Value) :
    (m.assign name v).assign name w = m.assign name w := by
  unfold assign
  cases m.frames <;> simp [Finmap.insert_insert]

theorem assign_comm (m : Scopes) {a b : NameHash} (hab : a ≠ b) (v w : Value) :
    (m.assign a v).assign b w = (m.assign b w).assign a v := by
  unfold assign
  cases m.frames <;> simp [Finmap.insert_insert_of_ne _ hab]

theorem assign_ne_empty (m : Scopes) (name : NameHash) (value : Value) :
    m.assign name value ≠ {} := by
  intro h
  have hlookup : (m.assign name value).current.lookup name = some value := by
    rw [current_assign, Finmap.lookup_insert]
  rw [h] at hlookup
  simp [current] at hlookup

theorem length_frames_assign (m : Scopes) (name : NameHash) (value : Value) :
    (m.assign name value).frames.length = m.frames.length := by
  unfold assign
  cases m.frames <;> rfl

def add (e : Entry) (m : Scopes) : Scopes :=
  if e.name.isValid then m.assign e.name e.value
  else match e.value.asFrame with
    | some record => m.enter record
    | none => m

/-- The scopes that entries describe, the top entry first. -/
def ofEntries (entries : List Entry) : Scopes := entries.foldr add {}

theorem ofEntries_variable {e : Entry} (h : e.name.isValid = true) (entries : List Entry) :
    ofEntries (e :: entries) = (ofEntries entries).assign e.name e.value := by
  simp [ofEntries, add, h]

theorem ofEntries_boundary (record : Frame) (entries : List Entry) :
    ofEntries (.boundary record :: entries) = (ofEntries entries).enter record := rfl

theorem length_frames_ofEntries {entries : List Entry} (h : ∀ e ∈ entries, e.Proper) :
    (ofEntries entries).frames.length = entries.countP Entry.isBoundary := by
  induction entries with
  | nil => rfl
  | cons e rest ih =>
    have hrest := ih fun e' he' => h e' (List.mem_cons_of_mem e he')
    rcases h e List.mem_cons_self with hv | ⟨record, rfl⟩
    · rw [ofEntries_variable hv, length_frames_assign, hrest,
        List.countP_cons_of_neg (by simp [Entry.isBoundary_of_isValid hv])]
    · rw [ofEntries_boundary, List.countP_cons_of_pos (Entry.isBoundary_boundary record), ← hrest]
      rfl

theorem ofEntries_eq_empty {entries : List Entry} (h : ∀ e ∈ entries, e.Proper) :
    ofEntries entries = {} ↔ entries = [] := by
  constructor
  · intro hempty
    cases entries with
    | nil => rfl
    | cons e rest =>
      exfalso
      rcases h e List.mem_cons_self with hv | ⟨record, rfl⟩
      · rw [ofEntries_variable hv] at hempty
        exact assign_ne_empty _ _ _ hempty
      · rw [ofEntries_boundary] at hempty
        simp [enter] at hempty
  · rintro rfl
    rfl

/-- Variables above the base of a frame belong to that frame, whatever lies below it. -/
theorem ofEntries_above_boundary {above : List Entry} (record : Frame) (below : List Entry)
    (h : ∀ e ∈ above, e.name.isValid = true) :
    ∃ vars, ofEntries (above ++ .boundary record :: below) =
      { ofEntries below with frames := (record, vars) :: (ofEntries below).frames } := by
  induction above with
  | nil => exact ⟨∅, rfl⟩
  | cons e rest ih =>
    obtain ⟨vars, hvars⟩ := ih fun e' he' => h e' (List.mem_cons_of_mem e he')
    refine ⟨vars.insert e.name e.value, ?_⟩
    rw [List.cons_append, ofEntries_variable (h e List.mem_cons_self), hvars]
    rfl

end Scopes

end Narrative
