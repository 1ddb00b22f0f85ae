import Narrative.CallStack.Op
import Narrative.Proofs.CallStack.Transitions
import Narrative.Proofs.Stack.Agreement

/-! Call stacks that agree below the frontier: no operation on frames and variables tells them apart. -/
namespace Narrative
namespace CallStack
open Stack

section Agree
variable {s t : CallStack}

theorem locate_congr (name : NameHash) {positions : List Nat}
    (h : ∀ i ∈ positions, s.slot i = t.slot i) :
    locate s name positions = locate t name positions := by
  induction positions with
  | nil => rfl
  | cons i rest ih =>
    have hi := h i List.mem_cons_self
    have hrest := ih fun j hj => h j (List.mem_cons_of_mem i hj)
    rw [locate, locate, hi, hrest]

theorem find_agree (h : s.Agree t) (name : NameHash) : find s name = find t name := by
  have hloc := locate_congr name fun i (hi : i ∈ s.positions) => h.slot_of_mem hi
  rw [find, find, hloc, h.positions]

theorem get?_agree (h : s.Agree t) (name : NameHash) : get? s name = get? t name := by
  rw [get?, get?, ← find_agree h]
  by_cases hname : name.isValid = true
  · cases hi : find s name with
    | none => rfl
    | some i =>
      rw [find, if_pos hname] at hi
      have hslot := h.slot_of_mem (locate_some hi).1
      simp only [Option.map_some, hslot]
  · simp [find, hname]

theorem slot_assign_agree (h : s.Agree t) (i : Nat) (value : Value) {j : Nat}
    (hj : j < s.frontier) : (assign s i value).slot j = (assign t i value).slot j := by
  have hslot := h.slot_eq j hj
  have hsize := h.size_eq
  by_cases hlt : j < s.slots.size
  · have hlt' : j < t.slots.size := hsize ▸ hlt
    simp only [slot, Array.getD_eq_getD_getElem?, Array.getElem?_eq_getElem hlt,
      Array.getElem?_eq_getElem hlt', Option.getD_some] at hslot
    simp [slot, assign, hlt, hlt', Array.getElem_modify, hslot]
  · have hlt' : ¬ j < t.slots.size := hsize ▸ hlt
    simp [slot, assign, hlt, hlt', h.null_eq]

theorem assign_agree (h : s.Agree t) (i : Nat) (value : Value) :
    (assign s i value).Agree (assign t i value) :=
  ⟨by simp [assign, h.size_eq], h.null_eq, h.top_eq, h.dead_eq, h.snapshot_eq,
    fun _ hj => slot_assign_agree h i value hj⟩

end Agree

theorem respects_set (name : NameHash) (value : Value) : Respects Agree (set name value) := by
  intro s t h
  have hfind : (if s.hasSnapshot then none else find s name) =
      if t.hasSnapshot then none else find t name := by
    rw [h.hasSnapshot, find_agree h]
  by_cases hname : name.isValid = true
  · cases hi : (if s.hasSnapshot then none else find s name) with
    | none =>
      have hs : attempt (set name value) s = attempt (Stack.push ⟨name, value⟩) s := by
        simp [attempt, set, hname, hi]
      have ht : attempt (set name value) t = attempt (Stack.push ⟨name, value⟩) t := by
        simp [attempt, set, hname, ← hfind, hi]
      rw [hs, ht]
      exact respects_push ⟨name, value⟩ h
    | some i =>
      have hs : attempt (set name value) s = (.ok (), assign s i value) :=
        attempt_of_ok (by simp [set, hname, hi])
      have ht : attempt (set name value) t = (.ok (), assign t i value) :=
        attempt_of_ok (by simp [set, hname, ← hfind, hi])
      rw [hs, ht]
      exact ⟨rfl, assign_agree h i value⟩
  · have hs : ∀ u : CallStack, attempt (set name value) u = (.error .reservedName, u) := fun u =>
      attempt_of_error (by simp [set, hname])
    rw [hs, hs]
    exact ⟨rfl, h⟩

theorem respects_popToBoundary (n : Nat) : Respects Agree (popToBoundary n) := by
  induction n with
  | zero => exact .throw _
  | succ n ih =>
    refine respects_pop.bind fun e => ?_
    split
    · split
      · exact .pure _
      · exact .throw _
    · exact ih

theorem hasFrame_agree {s t : CallStack} (h : s.Agree t) : hasFrame s = hasFrame t := by
  rw [hasFrame, hasFrame, h.toList]

theorem respects_popFrame : Respects Agree popFrame := by
  refine .guarded (fun s t h => by rw [isEmpty, isEmpty, h.size]) (.throw _)
    (.guarded (fun s t h => hasFrame_agree h) (fun s t h => ?_) (.throw _))
  have hpop := respects_popToBoundary s.top h
  simpa [attempt, h.top_eq] using hpop

theorem respects_op (op : Op) : Respects Agree op.perform := by
  cases op with
  | set name value => exact (respects_set name value).bind fun _ => .pure _
  | get name => exact .query fun s t h => by rw [get?_agree h]
  | pushFrame record => exact (respects_push (Entry.boundary record)).bind fun _ => .pure _
  | popFrame => exact respects_popFrame.bind fun _ => .pure _
  | hasFrame => exact .query fun s t h => by rw [hasFrame_agree h]
  | depth => exact .query fun s t h => by rw [depth, depth, h.toList]
  | control k => exact (respects_control k).bind fun _ => .pure _

theorem markIn_agree {s t : CallStack} (h : s.Agree t) (strings : StringTable) :
    markIn s strings = markIn t strings := by
  rw [markIn, markIn, h.live]

end CallStack
end Narrative
