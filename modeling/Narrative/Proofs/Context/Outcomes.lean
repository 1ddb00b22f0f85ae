import Narrative.Context.Op
import Narrative.Proofs.Stack.Outcomes

/-! What the operations on a whole context do: one of the stacks at a time, or all three. -/
namespace Narrative
namespace Context
open Stack
variable {c : Context}

theorem attempt_onCalls {β : Type} (action : CallM β) (c : Context) :
    attempt (onCalls action) c =
      ((attempt action c.calls).1, { c with calls := (attempt action c.calls).2 }) :=
  attempt_onPart _ _ action c

theorem attempt_onEval {β : Type} (action : StackM Value β) (c : Context) :
    attempt (onEval action) c =
      ((attempt action c.eval).1, { c with eval := (attempt action c.eval).2 }) :=
  attempt_onPart _ _ action c

theorem attempt_onContainers {β : Type} (action : StackM ContainerId β) (c : Context) :
    attempt (onContainers action) c =
      ((attempt action c.containers).1,
        { c with containers := (attempt action c.containers).2 }) :=
  attempt_onPart _ _ action c

theorem attempt_evalOp (op : Stack.Op Value) (c : Context) :
    attempt (Op.eval op).perform c =
      ((attempt op.perform c.eval).1.map .eval, { c with eval := (attempt op.perform c.eval).2 }) := by
  rw [Op.perform, attempt_bind_pure, attempt_onEval]

theorem attempt_callsOp (op : CallStack.Op) (c : Context) :
    attempt (Op.calls op).perform c =
      ((attempt op.perform c.calls).1.map .calls,
        { c with calls := (attempt op.perform c.calls).2 }) := by
  rw [Op.perform, attempt_bind_pure, attempt_onCalls]

theorem attempt_onAll {action : {α : Type} → StackM α Unit} {calls : CallStack} {eval : EvalStack}
    {containers : Stack ContainerId} (hcalls : attempt action c.calls = (.ok (), calls))
    (heval : attempt action c.eval = (.ok (), eval))
    (hcontainers : attempt action c.containers = (.ok (), containers)) :
    attempt (onAll action) c = (.ok (), ⟨calls, eval, containers⟩) := by
  have h₁ : attempt (onCalls action) c = (.ok (), { c with calls }) := by
    rw [attempt_onCalls, hcalls]
  have h₂ : attempt (onEval action) { c with calls } = (.ok (), { c with calls, eval }) := by
    rw [attempt_onEval, heval]
  rw [onAll, attempt_bind_of_ok h₁, attempt_bind_of_ok h₂, attempt_onContainers, hcontainers]

/-- An action on all three stacks succeeds only where it succeeds on each of them. -/
theorem ok_of_attempt_onAll {action : {α : Type} → StackM α Unit} {d : Context}
    (h : attempt (onAll action) c = (.ok (), d)) :
    attempt action c.calls = (.ok (), d.calls) ∧ attempt action c.eval = (.ok (), d.eval) ∧
      attempt action c.containers = (.ok (), d.containers) := by
  rcases hcalls : attempt action c.calls with ⟨_ | _, calls⟩
  · rw [onAll, attempt_bind_of_error (by rw [attempt_onCalls, hcalls])] at h
    cases h
  rw [onAll, attempt_bind_of_ok (by rw [attempt_onCalls, hcalls])] at h
  rcases heval : attempt action c.eval with ⟨_ | _, eval⟩
  · rw [attempt_bind_of_error (by rw [attempt_onEval, heval])] at h
    cases h
  rw [attempt_bind_of_ok (by rw [attempt_onEval, heval])] at h
  rcases hcontainers : attempt action c.containers with ⟨_ | _, containers⟩
  · rw [attempt_onContainers, hcontainers] at h
    cases h
  rw [attempt_onContainers, hcontainers] at h
  cases h
  exact ⟨rfl, rfl, rfl⟩

theorem hasSnapshot_eq_false :
    c.hasSnapshot = false ↔
      c.calls.snapshot = none ∧ c.eval.snapshot = none ∧ c.containers.snapshot = none := by
  simp [hasSnapshot, Stack.hasSnapshot, and_assoc]

theorem allSaved_eq_true :
    c.allSaved = true ↔ ∃ p q r, c.calls.snapshot = some p ∧ c.eval.snapshot = some q ∧
      c.containers.snapshot = some r := by
  simp [allSaved, Stack.hasSnapshot, Option.isSome_iff_exists, and_assoc]

theorem attempt_save_refused (h : c.hasSnapshot = true) :
    attempt save c = (.error .contextSavedTwice, c) :=
  attempt_of_error (by simp [save, h])

theorem attempt_save (h : c.hasSnapshot = false) :
    attempt save c = (.ok (), ⟨c.calls.marked, c.eval.marked, c.containers.marked⟩) := by
  obtain ⟨hcalls, heval, hcontainers⟩ := hasSnapshot_eq_false.mp h
  have hall : attempt (onAll Stack.save) c = _ := attempt_onAll (attempt_save_unsaved hcalls)
    (attempt_save_unsaved heval) (attempt_save_unsaved hcontainers)
  simpa [attempt, save, h] using hall

section Saved
variable {p q r : Snapshot} (hp : c.calls.snapshot = some p) (hq : c.eval.snapshot = some q)
  (hr : c.containers.snapshot = some r)
include hp hq hr

theorem attempt_restore :
    attempt restore c =
      (.ok (), ⟨c.calls.rollback p, c.eval.rollback q, c.containers.rollback r⟩) := by
  have hsaved := allSaved_eq_true.mpr ⟨p, q, r, hp, hq, hr⟩
  have hall : attempt (onAll Stack.restore) c = _ := attempt_onAll (attempt_restore_saved hp)
    (attempt_restore_saved hq) (attempt_restore_saved hr)
  simpa [attempt, restore, hsaved] using hall

theorem attempt_forget :
    attempt forget c =
      (.ok (), ⟨c.calls.committed p, c.eval.committed q, c.containers.committed r⟩) := by
  have hsaved := allSaved_eq_true.mpr ⟨p, q, r, hp, hq, hr⟩
  have hall : attempt (onAll Stack.forget) c = _ := attempt_onAll (attempt_forget_saved hp)
    (attempt_forget_saved hq) (attempt_forget_saved hr)
  simpa [attempt, forget, hsaved] using hall

end Saved

theorem attempt_restore_refused (h : c.allSaved = false) :
    attempt restore c = (.error .contextRestoreUnsaved, c) :=
  attempt_of_error (by simp [restore, h])

theorem attempt_forget_refused (h : c.allSaved = false) :
    attempt forget c = (.error .contextForgetUnsaved, c) :=
  attempt_of_error (by simp [forget, h])

/-! ### A whole context succeeds as its stacks do -/

section Succeeds
variable {d : Context}

theorem onAll_of_save (h : attempt save c = (.ok (), d)) :
    attempt (onAll Stack.save) c = (.ok (), d) := by
  cases hsaved : c.hasSnapshot with
  | true =>
    rw [attempt_save_refused hsaved] at h
    cases h
  | false => simpa [attempt, save, hsaved] using h

theorem onAll_of_restore (h : attempt restore c = (.ok (), d)) :
    attempt (onAll Stack.restore) c = (.ok (), d) := by
  cases hsaved : c.allSaved with
  | true => simpa [attempt, restore, hsaved] using h
  | false =>
    rw [attempt_restore_refused hsaved] at h
    cases h

theorem onAll_of_forget (h : attempt forget c = (.ok (), d)) :
    attempt (onAll Stack.forget) c = (.ok (), d) := by
  cases hsaved : c.allSaved with
  | true => simpa [attempt, forget, hsaved] using h
  | false =>
    rw [attempt_forget_refused hsaved] at h
    cases h

end Succeeds

end Context
end Narrative
