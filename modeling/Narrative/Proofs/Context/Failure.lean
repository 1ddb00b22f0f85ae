import Narrative.Proofs.Context.Sound
import Narrative.Script.Run

/-! An operation that fails leaves everything as it was: the slots, the counters and the save of every
stack. -/
namespace Narrative

namespace Stack
variable {α : Type} {P : Stack α → Prop}

theorem atomic_clear : Atomic P (clear : StackM α Unit) := .of_cases fun s _ => by
  cases h : s.hasSnapshot with
  | true => exact .inr ⟨_, attempt_clear_saved h⟩
  | false => exact .inl ⟨_, _, attempt_clear_unsaved h⟩

theorem atomic_save : Atomic P (save : StackM α Unit) := .of_cases fun s _ => by
  cases h : s.snapshot with
  | some p => exact .inr ⟨_, attempt_save_saved h⟩
  | none => exact .inl ⟨_, _, attempt_save_unsaved h⟩

theorem atomic_restore : Atomic P (restore : StackM α Unit) := .of_cases fun s _ => by
  cases h : s.snapshot with
  | some p => exact .inl ⟨_, _, attempt_restore_saved h⟩
  | none => exact .inr ⟨_, attempt_restore_unsaved h⟩

theorem atomic_forget : Atomic P (forget : StackM α Unit) := .of_cases fun s _ => by
  cases h : s.snapshot with
  | some p => exact .inl ⟨_, _, attempt_forget_saved h⟩
  | none => exact .inr ⟨_, attempt_forget_unsaved h⟩

variable [BEq α]

/-- A push that finds no room has not moved the jump either. -/
theorem atomic_push (v : α) : Atomic P (push v) := .of_cases fun s _ => by
  cases hv : v == s.null with
  | true => exact .inr ⟨_, attempt_push_null hv⟩
  | false =>
    by_cases hroom : s.frontier < s.capacity
    · exact .inl ⟨_, _, attempt_push_room hv hroom⟩
    · exact .inr ⟨_, attempt_push_full hv (Nat.le_of_not_lt hroom)⟩

theorem atomic_pop : Atomic P (pop : StackM α α) := .of_cases fun s _ => by
  rcases h : s.seekBelow s.top with ⟨_ | i, k⟩
  · exact .inr ⟨_, attempt_pop_none h⟩
  · exact .inl ⟨_, _, attempt_pop_some h⟩

theorem atomic_peek : Atomic P (peek : StackM α α) := .of_cases fun s _ => by
  cases h : s.peek? with
  | none => exact .inr ⟨_, attempt_peek_none h⟩
  | some v => exact .inl ⟨_, _, attempt_peek_some h⟩

theorem atomic_control (k : Control) : Atomic P (k.perform : StackM α (Answer α)) := by
  cases k with
  | size | isEmpty | capacity | hasSnapshot | toList => exact .query _
  | reset => exact .of_cases fun s _ => .inl ⟨_, _, rfl⟩
  | clear => exact atomic_clear.bind_pure _
  | save => exact atomic_save.bind_pure _
  | restore => exact atomic_restore.bind_pure _
  | forget => exact atomic_forget.bind_pure _

theorem atomic_op (op : Op α) : Atomic P op.perform := by
  cases op with
  | push v => exact (atomic_push v).bind_pure _
  | pop => exact atomic_pop.bind_pure _
  | peek => exact atomic_peek.bind_pure _
  | null | live | step => exact .query _
  | control k => exact atomic_control k

end Stack

namespace CallStack

theorem atomic_set {P : CallStack → Prop} (name : NameHash) (value : Value) :
    Atomic P (set name value) := by
  intro s hs e t herror
  rcases attempt_set_cases s name value with ⟨-, h⟩ | ⟨i, -, -, -, h⟩ | ⟨-, -, h⟩
  · rw [h] at herror
    cases herror
    rfl
  · rw [h] at herror
    cases herror
  · rw [h] at herror
    exact Stack.atomic_push _ hs herror

/-- The pops that leave a frame can not fail half way. -/
theorem atomic_popFrame : Atomic WellFramed popFrame := .of_cases fun s hs => by
  rcases popFrame_cases hs with ⟨-, -, h⟩ | ⟨-, -, h⟩ | ⟨record, t, h, -⟩
  · exact .inr ⟨_, h⟩
  · exact .inr ⟨_, h⟩
  · exact .inl ⟨_, _, h⟩

theorem atomic_op (op : Op) : Atomic WellFramed op.perform := by
  cases op with
  | set name value => exact (atomic_set name value).bind_pure _
  | get | hasFrame | depth => exact .query _
  | pushFrame record => exact (Stack.atomic_push (Entry.boundary record)).bind_pure _
  | popFrame => exact atomic_popFrame.bind_pure _
  | control k => exact (Stack.atomic_control k).bind_pure _

end CallStack

namespace Context
variable {config : Config}

theorem atomic_onContainers {β : Type} {action : StackM ContainerId β}
    (h : Atomic (fun _ => True) action) : Atomic (Sound config) (onContainers action) :=
  h.onPart (fun _ _ => trivial) fun _ => rfl

/-- What is checked before any of the stacks is touched keeps each of them from failing. -/
theorem atomic_save : Atomic (Sound config) save :=
  .guarded (.throw _) <| .of_cases fun c hc => by
    obtain ⟨hcalls, heval, hcontainers⟩ := hasSnapshot_eq_false.mp hc.2
    exact .inl ⟨_, _, attempt_onAll (Stack.attempt_save_unsaved hcalls)
      (Stack.attempt_save_unsaved heval) (Stack.attempt_save_unsaved hcontainers)⟩

theorem atomic_restore : Atomic (Sound config) restore :=
  .guarded (.of_cases fun c hc => by
    obtain ⟨p, q, r, hp, hq, hr⟩ := allSaved_eq_true.mp hc.2
    exact .inl ⟨_, _, attempt_onAll (Stack.attempt_restore_saved hp)
      (Stack.attempt_restore_saved hq) (Stack.attempt_restore_saved hr)⟩) (.throw _)

theorem atomic_forget : Atomic (Sound config) forget :=
  .guarded (.of_cases fun c hc => by
    obtain ⟨p, q, r, hp, hq, hr⟩ := allSaved_eq_true.mp hc.2
    exact .inl ⟨_, _, attempt_onAll (Stack.attempt_forget_saved hp)
      (Stack.attempt_forget_saved hq) (Stack.attempt_forget_saved hr)⟩) (.throw _)

theorem atomic_op (op : Op) : Atomic (Sound config) op.perform := by
  cases op with
  | enter id => exact (atomic_onContainers (Stack.atomic_push id)).bind_pure _
  | leave => exact (atomic_onContainers Stack.atomic_pop).bind_pure _
  | current | depth | hasSnapshot => exact .query _
  | save => exact atomic_save.bind_pure _
  | restore => exact atomic_restore.bind_pure _
  | forget => exact atomic_forget.bind_pure _
  | reset => exact .of_cases fun c _ => .inl ⟨_, _, rfl⟩
  | calls op =>
    have hcalls : Atomic (Sound config) (onCalls op.perform) :=
      (CallStack.atomic_op op).onPart (fun _ hc => hc.calls.wellFramed) fun _ => rfl
    exact hcalls.bind_pure _
  | eval op =>
    have heval : Atomic (Sound config) (onEval op.perform) :=
      (Stack.atomic_op op).onPart (P := fun _ => True) (fun _ _ => trivial) fun _ => rfl
    exact heval.bind_pure _

theorem atomic_execute (op : Script.Op) : Atomic (Sound config) op.execute :=
  (atomic_op op.action).bind_pure _

/-- Whatever has been done to a context since it was made, an operation that fails on it changes none
of its slots, counters and saves; nor does a line of a script. -/
theorem failures_change_nothing {start : Context} (hstart : ofConfig config = .ok start)
    (ops : List Op) :
    let c := (attempts Op.perform ops start).2
    (∀ op error d, attempt (Op.perform op) c = (.error error, d) → d = c) ∧
      ∀ op error d, attempt (Script.Op.execute op) c = (.error error, d) → d = c := by
  intro c
  have hsound : c.Sound config := sound_attempts hstart ops
  exact ⟨fun op _ _ h => atomic_op op hsound h, fun op _ _ h => atomic_execute op hsound h⟩

/-- Room for one variable, two values and one container. -/
def tight : Config := { call := 1, eval := 2, container := 1 }

/-- A tombstone is left on the evaluation stack, and the saved container lies above the top. -/
def exhaust : List Op :=
  [.eval (.push (.int 1)), .eval (.control .save), .eval .pop, .eval (.push (.int 2)),
    .eval (.control .forget), .eval .pop, .calls (.set ⟨7⟩ (.int 3)), .enter ⟨4⟩, .save, .leave]

/-- A push that would have jumped over saved data, a pop and a read that find tombstones only, a
variable that finds no room, a frame that is not there and a second save. -/
theorem exhausted_failures_change_nothing :
    ∃ start, ofConfig tight = .ok start ∧
      let c := (attempts Op.perform exhaust start).2
      attempt (Op.enter ⟨5⟩).perform c = (.error (.overflow 1), c) ∧
      attempt (Op.eval .pop).perform c = (.error .underflow, c) ∧
      attempt (Op.eval .peek).perform c = (.error .underflow, c) ∧
      attempt (Op.calls (.set ⟨8⟩ (.int 1))).perform c = (.error (.overflow 1), c) ∧
      attempt (Script.Op.execute .popFrame) c = (.error .noFrame, c) ∧
      attempt (Script.Op.execute (.save none)) c = (.error .contextSavedTwice, c) := by
  have hstart : ofConfig tight = .ok _ := rfl
  refine ⟨_, hstart, ?_⟩
  intro c
  obtain ⟨hop, hexecute⟩ := failures_change_nothing hstart exhaust
  have hkeep : ∀ op error, (attempt (Op.perform op) c).1 = .error error →
      attempt op.perform c = (.error error, c) :=
    fun op error h => Prod.ext h (hop op error _ (Prod.ext h rfl))
  have hkeep' : ∀ op error, (attempt (Script.Op.execute op) c).1 = .error error →
      attempt op.execute c = (.error error, c) :=
    fun op error h => Prod.ext h (hexecute op error _ (Prod.ext h rfl))
  exact ⟨hkeep (.enter ⟨5⟩) _ rfl, hkeep (.eval .pop) _ rfl, hkeep (.eval .peek) _ rfl,
    hkeep (.calls (.set ⟨8⟩ (.int 1))) _ rfl, hkeep' .popFrame _ rfl, hkeep' (.save none) _ rfl⟩

end Context
end Narrative
