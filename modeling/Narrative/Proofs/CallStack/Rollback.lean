import Narrative.CallStack.Op
import Narrative.Proofs.Stack.Rollback

/-! What a save of a call stack protects: while it is outstanding no variable is set in place. -/
namespace Narrative
namespace CallStack
open Stack
variable {r : CallStack}

def Op.endsSave : Op → Bool
  | .control k => k.endsSave
  | _ => false

theorem preserves_set (name : NameHash) (value : Value) :
    Preserves (RollsBackTo r) (set name value) := by
  intro s h
  by_cases hname : name.isValid = true
  · have hpush : attempt (set name value) s = attempt (Stack.push ⟨name, value⟩) s := by
      simp [attempt, set, hname, h.isSaved]
    rw [hpush]
    exact preserves_push ⟨name, value⟩ h
  · have hfail : attempt (set name value) s = (.error .reservedName, s) :=
      attempt_of_error (by simp [set, hname])
    rw [hfail]
    exact h

theorem preserves_popToBoundary (n : Nat) : Preserves (RollsBackTo r) (popToBoundary n) := by
  induction n with
  | zero => exact .throw _
  | succ n ih =>
    refine preserves_pop.bind fun e => ?_
    split
    · split
      · exact .pure _
      · exact .throw _
    · exact ih

theorem preserves_popFrame : Preserves (RollsBackTo r) popFrame :=
  .guarded (.throw _) (.guarded (fun s h => preserves_popToBoundary s.top h) (.throw _))

theorem preserves_op {op : Op} (hop : op.endsSave = false) :
    Preserves (RollsBackTo r) op.perform := by
  cases op with
  | set name value => exact (preserves_set name value).bind fun _ => .pure _
  | get | hasFrame | depth => exact .query _
  | pushFrame record => exact (preserves_push (Entry.boundary record)).bind fun _ => .pure _
  | popFrame => exact preserves_popFrame.bind fun _ => .pure _
  | control k => exact (preserves_control hop).bind fun _ => .pure _

/-- After a save no operation of a stack or of a call stack writes a saved slot, apart from those that
end the save, and a restore finds the top, the tombstones and the live slots of the save. -/
theorem saved_slots_unwritten :
    (∀ {α : Type} [BEq α] (s saved : Stack α) (ops : List (Stack.Op α)),
      attempt save s = (.ok (), saved) → (∀ op ∈ ops, op.endsSave = false) →
        s.SaveIntact (attempts Stack.Op.perform ops saved).2) ∧
    ∀ (s saved : CallStack) (ops : List Op),
      attempt save s = (.ok (), saved) → (∀ op ∈ ops, op.endsSave = false) →
        s.SaveIntact (attempts Op.perform ops saved).2 := by
  constructor
  · intro α _ s saved ops hsave hops
    exact attempts_saveIntact hsave fun op hop => Stack.preserves_op (hops op hop)
  · intro s saved ops hsave hops
    exact attempts_saveIntact hsave fun op hop => preserves_op (hops op hop)

/-- Down through a saved tombstone to the bottom, and twice past the save. -/
def belowAndPast : List (Stack.Op Nat) :=
  [.pop, .pop, .push 5, .pop, .push 6, .control .save, .control .clear]

/-- A saved variable is set again, its frame is left, and another is entered past the save. -/
def setAgain : List Op :=
  [.set ⟨1⟩ (.int 7), .popFrame, .pushFrame ⟨9, .function⟩, .set ⟨1⟩ (.int 8)]

theorem belowAndPast_unwritten :
    let s : Stack Nat := ⟨#[1, 0, 3, 9], 0, 3, 1, none⟩
    let c : CallStack := ⟨#[.boundary ⟨4, .tunnel⟩, ⟨⟨1⟩, .int 5⟩, .null, .null], Entry.null, 2, 0, none⟩
    attempt save s = (.ok (), s.marked) ∧ (∀ op ∈ belowAndPast, op.endsSave = false) ∧
    s.SaveIntact ⟨#[1, 0, 3, 6], 0, 4, 0, some ⟨3, 0, 1⟩⟩ ∧
    attempt save c = (.ok (), c.marked) ∧ (∀ op ∈ setAgain, op.endsSave = false) ∧
    c.SaveIntact ⟨#[.boundary ⟨4, .tunnel⟩, ⟨⟨1⟩, .int 5⟩, .boundary ⟨9, .function⟩, ⟨⟨1⟩, .int 8⟩],
      Entry.null, 4, 0, some ⟨2, 0, 0⟩⟩ := by
  intro s c
  have hstack : ∀ op ∈ belowAndPast, op.endsSave = false := by
    simp [belowAndPast, Stack.Op.endsSave, Control.endsSave]
  have hcalls : ∀ op ∈ setAgain, op.endsSave = false := by
    simp [setAgain, Op.endsSave]
  have hstackRun : (attempts Stack.Op.perform belowAndPast s.marked).2 =
      ⟨#[1, 0, 3, 6], 0, 4, 0, some ⟨3, 0, 1⟩⟩ := by rfl
  have hcallsRun : (attempts Op.perform setAgain c.marked).2 =
      ⟨#[.boundary ⟨4, .tunnel⟩, ⟨⟨1⟩, .int 5⟩, .boundary ⟨9, .function⟩, ⟨⟨1⟩, .int 8⟩],
        Entry.null, 4, 0, some ⟨2, 0, 0⟩⟩ := by rfl
  have h := saved_slots_unwritten.1 s s.marked belowAndPast rfl hstack
  have h' := saved_slots_unwritten.2 c c.marked setAgain rfl hcalls
  rw [hstackRun] at h
  rw [hcallsRun] at h'
  exact ⟨rfl, hstack, h, rfl, hcalls, h'⟩

end CallStack
end Narrative
