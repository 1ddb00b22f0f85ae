import Narrative.Proofs.CallStack.Agreement
import Narrative.Proofs.CallStack.Rollback
import Narrative.Proofs.Context.Outcomes
import Narrative.Script.Run
import Narrative.Story

/-! A save, whatever is done after it, and a restore leave a context that no later operation tells
from the one there was before. -/
namespace Narrative
namespace Context
open Stack

/-! ### Contexts that agree -/

structure Agree (c d : Context) : Prop where
  calls : c.calls.Agree d.calls
  eval : c.eval.Agree d.eval
  containers : c.containers.Agree d.containers

theorem respects_onCalls {β : Type} {action : CallM β} (h : Respects Stack.Agree action) :
    Respects Agree (onCalls action) :=
  h.onPart (fun _ _ hcd => hcd.calls) fun _ _ _ _ hcd hs => ⟨hs, hcd.eval, hcd.containers⟩

theorem respects_onEval {β : Type} {action : StackM Value β} (h : Respects Stack.Agree action) :
    Respects Agree (onEval action) :=
  h.onPart (fun _ _ hcd => hcd.eval) fun _ _ _ _ hcd hs => ⟨hcd.calls, hs, hcd.containers⟩

theorem respects_onContainers {β : Type} {action : StackM ContainerId β}
    (h : Respects Stack.Agree action) : Respects Agree (onContainers action) :=
  h.onPart (fun _ _ hcd => hcd.containers) fun _ _ _ _ hcd hs => ⟨hcd.calls, hcd.eval, hs⟩

theorem respects_onAll {action : {α : Type} → StackM α Unit}
    (h : ∀ α : Type, Respects Stack.Agree (action : StackM α Unit)) :
    Respects Agree (onAll action) :=
  (respects_onCalls (h Entry)).bind fun _ =>
    (respects_onEval (h Value)).bind fun _ => respects_onContainers (h ContainerId)

theorem Agree.hasSnapshot {c d : Context} (h : c.Agree d) : c.hasSnapshot = d.hasSnapshot := by
  rw [Context.hasSnapshot, Context.hasSnapshot, h.calls.hasSnapshot, h.eval.hasSnapshot,
    h.containers.hasSnapshot]

theorem Agree.allSaved {c d : Context} (h : c.Agree d) : c.allSaved = d.allSaved := by
  rw [Context.allSaved, Context.allSaved, h.calls.hasSnapshot, h.eval.hasSnapshot,
    h.containers.hasSnapshot]

theorem respects_op (op : Op) : Respects Agree op.perform := by
  cases op with
  | enter id => exact (respects_onContainers (respects_push id)).bind fun _ => .pure _
  | leave => exact (respects_onContainers respects_pop).bind fun _ => .pure _
  | current => exact .query fun c d h => by rw [current?, current?, h.containers.peek?]
  | depth => exact .query fun c d h => by rw [h.containers.size]
  | hasSnapshot => exact .query fun c d h => by rw [h.hasSnapshot]
  | save =>
    have hsave : Respects Agree save :=
      .guarded (fun c d h => h.hasSnapshot) (.throw _) (respects_onAll fun _ => respects_save)
    exact hsave.bind fun _ => .pure _
  | restore =>
    have hrestore : Respects Agree restore :=
      .guarded (fun c d h => h.allSaved) (respects_onAll fun _ => respects_restore) (.throw _)
    exact hrestore.bind fun _ => .pure _
  | forget =>
    have hforget : Respects Agree forget :=
      .guarded (fun c d h => h.allSaved) (respects_onAll fun _ => respects_forget) (.throw _)
    exact hforget.bind fun _ => .pure _
  | reset =>
    refine (Respects.change fun c d h => ?_).bind fun _ => .pure _
    exact ⟨h.calls.reset, h.eval.reset, h.containers.reset⟩
  | calls op => exact (respects_onCalls (CallStack.respects_op op)).bind fun _ => .pure _
  | eval op => exact (respects_onEval (Stack.respects_op op)).bind fun _ => .pure _

theorem respects_execute (op : Script.Op) : Respects Agree op.execute :=
  (respects_op op.action).bind fun _ => .pure _

theorem collectGarbage_agree {c d : Context} (h : c.Agree d) (strings : StringTable) :
    c.collectGarbage strings = d.collectGarbage strings := by
  rw [collectGarbage, collectGarbage, CallStack.markIn_agree h.calls, EvalStack.markIn,
    EvalStack.markIn, h.eval.live]

/-- Stories with one string table, and contexts that agree. -/
structure AgreeWithStrings (s t : Story) : Prop where
  context : s.context.Agree t.context
  strings : s.strings = t.strings

theorem respects_storyOp (op : Story.Op) : Respects AgreeWithStrings op.perform := by
  cases op with
  | context op =>
    have hop : Respects AgreeWithStrings (Story.onContext op.perform) :=
      (respects_op op).onPart (fun _ _ h => h.context) fun _ _ _ _ h hc => ⟨hc, h.strings⟩
    exact hop.bind fun _ => .pure _
  | strings op =>
    intro s t h
    simp only [Story.Op.perform, attempt, h.strings]
    exact ⟨trivial, h.context, rfl⟩
  | markValue v =>
    refine (Respects.change fun s t h => ?_).bind fun _ => .pure _
    exact ⟨h.context, by rw [h.strings]⟩
  | markCalls =>
    refine (Respects.change fun s t h => ?_).bind fun _ => .pure _
    exact ⟨h.context, by rw [h.strings, CallStack.markIn_agree h.context.calls]⟩
  | markEval =>
    refine (Respects.change fun s t h => ?_).bind fun _ => .pure _
    exact ⟨h.context, by rw [h.strings, EvalStack.markIn, EvalStack.markIn, h.context.eval.live]⟩
  | collectGarbage =>
    intro s t h
    simp only [Story.Op.perform, attempt, h.strings, collectGarbage_agree h.context]
    exact ⟨trivial, h.context, rfl⟩

/-! ### While the save is outstanding -/

/-- All stacks are saved, and a restore goes back to a context like the given one. -/
structure RollsBackTo (b c : Context) : Prop where
  calls : b.calls.RollsBackTo c.calls
  eval : b.eval.RollsBackTo c.eval
  containers : b.containers.RollsBackTo c.containers

/-- The operations that can end the save of a stack. -/
def Op.endsSave : Op → Bool
  | .restore | .forget | .reset => true
  | .calls op => op.endsSave
  | .eval op => op.endsSave
  | _ => false

variable {b : Context}

theorem preserves_onCalls {β : Type} {action : CallM β}
    (h : Preserves (Stack.RollsBackTo b.calls) action) :
    Preserves (RollsBackTo b) (onCalls action) :=
  h.onPart (fun _ hc => hc.calls) fun _ _ hc hs => ⟨hs, hc.eval, hc.containers⟩

theorem preserves_onEval {β : Type} {action : StackM Value β}
    (h : Preserves (Stack.RollsBackTo b.eval) action) :
    Preserves (RollsBackTo b) (onEval action) :=
  h.onPart (fun _ hc => hc.eval) fun _ _ hc hs => ⟨hc.calls, hs, hc.containers⟩

theorem preserves_onContainers {β : Type} {action : StackM ContainerId β}
    (h : Preserves (Stack.RollsBackTo b.containers) action) :
    Preserves (RollsBackTo b) (onContainers action) :=
  h.onPart (fun _ hc => hc.containers) fun _ _ hc hs => ⟨hc.calls, hc.eval, hs⟩

theorem preserves_op {op : Op} (hop : op.endsSave = false) :
    Preserves (RollsBackTo b) op.perform := by
  cases op with
  | enter id => exact (preserves_onContainers (preserves_push id)).bind fun _ => .pure _
  | leave => exact (preserves_onContainers preserves_pop).bind fun _ => .pure _
  | current | depth | hasSnapshot => exact .query _
  | save =>
    have hall : Preserves (RollsBackTo b) (onAll Stack.save) :=
      (preserves_onCalls preserves_save).bind fun _ =>
        (preserves_onEval preserves_save).bind fun _ => preserves_onContainers preserves_save
    have hsave : Preserves (RollsBackTo b) save := .guarded (.throw _) hall
    exact hsave.bind fun _ => .pure _
  | restore | forget | reset => cases hop
  | calls op => exact (preserves_onCalls (CallStack.preserves_op hop)).bind fun _ => .pure _
  | eval op => exact (preserves_onEval (Stack.preserves_op hop)).bind fun _ => .pure _

theorem attempt_restore_of_rollsBackTo {c : Context} (h : b.RollsBackTo c) :
    ∃ d, attempt restore c = (.ok (), d) ∧ d.Agree b := by
  obtain ⟨p, hp, hcalls⟩ := h.calls
  obtain ⟨q, hq, heval⟩ := h.eval
  obtain ⟨r, hr, hcontainers⟩ := h.containers
  exact ⟨_, attempt_restore hp hq hr, hcalls.symm, heval.symm, hcontainers.symm⟩

/-- What is done between a save and its restore is never seen again: operations of the context, lines
of a script and garbage collections after the restore answer as if none of it had been done. -/
theorem restore_undoes_all {c : Context} (hc : c.hasSnapshot = false) {discarded : List Op}
    (hdiscarded : ∀ op ∈ discarded, op.endsSave = false) :
    ∃ saved restored, attempt save c = (.ok (), saved) ∧
      attempt restore (attempts Op.perform discarded saved).2 = (.ok (), restored) ∧
      (∀ ops, (attempts Op.perform ops restored).1 = (attempts Op.perform ops c).1) ∧
      (∀ script : Script, (attempts Script.Op.execute script restored).1 =
        (attempts Script.Op.execute script c).1) ∧
      ∀ ops strings, (attempts Story.Op.perform ops ⟨restored, strings⟩).1 =
        (attempts Story.Op.perform ops ⟨c, strings⟩).1 := by
  obtain ⟨hcalls, heval, hcontainers⟩ := hasSnapshot_eq_false.mp hc
  have hsaved : c.RollsBackTo ⟨c.calls.marked, c.eval.marked, c.containers.marked⟩ :=
    ⟨rollsBackTo_marked hcalls, rollsBackTo_marked heval, rollsBackTo_marked hcontainers⟩
  have hkept := attempts_preserve (fun op hop => preserves_op (hdiscarded op hop)) hsaved
  obtain ⟨restored, hrestore, hagree⟩ := attempt_restore_of_rollsBackTo hkept
  exact ⟨_, restored, attempt_save hc, hrestore,
    fun ops => attempts_respect respects_op ops hagree,
    fun script => attempts_respect respects_execute script hagree,
    fun ops strings => attempts_respect respects_storyOp ops ⟨hagree, rfl⟩⟩

/-- A value and a container, on stacks of two slots each. -/
def halfFull : Context :=
  (attempts Op.perform [.eval (.push (.int 1)), .enter ⟨7⟩]
    ⟨CallStack.ofCapacity 2, EvalStack.ofCapacity 2, Stack.ofCapacity 2 ContainerId.none⟩).2

def swapped : List Op :=
  [.eval .pop, .eval (.push (.int 5)), .eval (.push (.int 6)), .save, .leave, .enter ⟨9⟩]

theorem restore_undoes_swapped :
    halfFull.hasSnapshot = false ∧ (∀ op ∈ swapped, op.endsSave = false) ∧
    ∃ saved restored, attempt save halfFull = (.ok (), saved) ∧
      attempt restore (attempts Op.perform swapped saved).2 = (.ok (), restored) ∧
      (attempts Op.perform
          [.current, .eval (.push (.int 2)), .eval (.push (.int 3)), .eval .pop, .eval .pop]
          restored).1 =
        [.ok (.current (some ⟨7⟩)), .ok (.eval .done), .error (.overflow 2),
          .ok (.eval (.element (.int 2))), .ok (.eval (.element (.int 1)))] := by
  have hunsaved : halfFull.hasSnapshot = false := rfl
  have hswapped : ∀ op ∈ swapped, op.endsSave = false := by decide
  refine ⟨hunsaved, hswapped, ?_⟩
  obtain ⟨saved, restored, hsave, hrestore, hops, -⟩ := restore_undoes_all hunsaved hswapped
  exact ⟨saved, restored, hsave, hrestore, (hops _).trans (by rfl)⟩

end Context
end Narrative
