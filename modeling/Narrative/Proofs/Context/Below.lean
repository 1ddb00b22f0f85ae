import Narrative.Proofs.CallStack.Below
import Narrative.Proofs.Context.Outcomes
import Narrative.Script.Run

/-! A context that lies below another one, stack by stack, prints what the other prints and never runs
out of room before it. -/
namespace Narrative
namespace Context
open Stack

/-- If `ahead`, the second context has all its stacks saved and the first has none; otherwise the
stacks that are saved are the same. -/
structure Below (ahead : Bool) (c d : Context) : Prop where
  calls : CallStack.Below ahead c.calls d.calls
  eval : Stack.Below Sheet.Packed Value.none ahead c.eval d.eval
  containers : Stack.Below Sheet.Packed ContainerId.none ahead c.containers d.containers

theorem below_ofConfig {config : Config} {c : Context} (h : ofConfig config = .ok c) :
    Below false c c := by
  have hc : c = ⟨CallStack.ofCapacity config.call.toNat, EvalStack.ofCapacity config.eval.toNat,
      Stack.ofCapacity config.container.toNat ContainerId.none⟩ := by
    rw [ofConfig] at h
    cases hv : config.validate with
    | error e =>
      rw [hv] at h
      cases h
    | ok u =>
      rw [hv] at h
      cases h
      rfl
  subst hc
  exact ⟨below_ofSlots CallStack.lower_empty _ _, below_ofSlots packed_empty _ _,
    below_ofSlots packed_empty _ _⟩

section Steps
variable {ahead : Bool}

theorem mirrors_onCalls {β : Type} {action : CallM β}
    (h : Mirrors (CallStack.Below ahead) action) : Mirrors (Below ahead) (onCalls action) :=
  h.onPart (fun _ _ hcd => hcd.calls) fun _ _ _ _ hcd hs => ⟨hs, hcd.eval, hcd.containers⟩

theorem mirrors_onEval {β : Type} {action : StackM Value β}
    (h : Mirrors (Stack.Below Sheet.Packed Value.none ahead) action) :
    Mirrors (Below ahead) (onEval action) :=
  h.onPart (fun _ _ hcd => hcd.eval) fun _ _ _ _ hcd hs => ⟨hcd.calls, hs, hcd.containers⟩

theorem mirrors_onContainers {β : Type} {action : StackM ContainerId β}
    (h : Mirrors (Stack.Below Sheet.Packed ContainerId.none ahead) action) :
    Mirrors (Below ahead) (onContainers action) :=
  h.onPart (fun _ _ hcd => hcd.containers) fun _ _ _ _ hcd hs => ⟨hcd.calls, hcd.eval, hs⟩

theorem mirrors_evalOp {op : Stack.Op Value}
    (h : Mirrors (Stack.Below Sheet.Packed Value.none ahead) op.perform) :
    Mirrors (Below ahead) (Op.eval op).perform :=
  (mirrors_onEval h).bind fun _ => .pure _

theorem mirrors_callsOp {op : CallStack.Op} (h : Mirrors (CallStack.Below ahead) op.perform) :
    Mirrors (Below ahead) (Op.calls op).perform :=
  (mirrors_onCalls h).bind fun _ => .pure _

theorem mirrors_onAll {action : {α : Type} → StackM α Unit}
    (hcalls : Mirrors (CallStack.Below ahead) action)
    (heval : Mirrors (Stack.Below Sheet.Packed Value.none ahead) action)
    (hcontainers : Mirrors (Stack.Below Sheet.Packed ContainerId.none ahead) action) :
    Mirrors (Below ahead) (onAll action) :=
  (mirrors_onCalls hcalls).bind fun _ =>
    (mirrors_onEval heval).bind fun _ => mirrors_onContainers hcontainers

end Steps

/-! ### Saves of the whole context -/

section Whole
variable {c d : Context}

theorem Below.hasSnapshot_eq (h : Below false c d) : c.hasSnapshot = d.hasSnapshot := by
  rw [hasSnapshot, hasSnapshot, h.calls.hasSnapshot_eq, h.eval.hasSnapshot_eq,
    h.containers.hasSnapshot_eq]

theorem Below.allSaved_eq (h : Below false c d) : c.allSaved = d.allSaved := by
  rw [allSaved, allSaved, h.calls.hasSnapshot_eq, h.eval.hasSnapshot_eq,
    h.containers.hasSnapshot_eq]

theorem mirrors_save : Mirrors (Below false) save :=
  .guarded (fun _ _ h => h.hasSnapshot_eq) (.throw _)
    (mirrors_onAll Stack.mirrors_save Stack.mirrors_save Stack.mirrors_save)

theorem mirrors_restore : Mirrors (Below false) restore :=
  .guarded (fun _ _ h => h.allSaved_eq)
    (mirrors_onAll Stack.mirrors_restore Stack.mirrors_restore Stack.mirrors_restore) (.throw _)

theorem mirrors_forget : Mirrors (Below false) forget :=
  .guarded (fun _ _ h => h.allSaved_eq)
    (mirrors_onAll (Stack.mirrors_forget rfl) (Stack.mirrors_forget rfl)
      (Stack.mirrors_forget (beq_self_eq_true _))) (.throw _)

/-- A save of the upper context alone sets it ahead. -/
theorem Below.save_upper {d' : Context} (h : Below false c d)
    (hd : attempt save d = (.ok (), d')) : Below true c d' := by
  cases hs : d.hasSnapshot with
  | true =>
    rw [attempt_save_refused hs] at hd
    cases hd
  | false =>
    rw [attempt_save hs] at hd
    cases hd
    obtain ⟨hcalls, heval, hcontainers⟩ := hasSnapshot_eq_false.mp hs
    exact ⟨h.calls.marked_upper hcalls, h.eval.marked_upper heval,
      h.containers.marked_upper hcontainers⟩

/-- Once it has forgotten that save, the two are level again. -/
theorem Below.forget_upper {d' : Context} (h : Below true c d)
    (hd : attempt forget d = (.ok (), d')) : Below false c d' := by
  cases hs : d.allSaved with
  | false =>
    rw [attempt_forget_refused hs] at hd
    cases hd
  | true =>
    obtain ⟨p, q, r, hp, hq, hr⟩ := allSaved_eq_true.mp hs
    rw [attempt_forget hp hq hr] at hd
    cases hd
    exact ⟨h.calls.committed_upper rfl hp, h.eval.committed_upper rfl hq,
      h.containers.committed_upper (beq_self_eq_true _) hr⟩

end Whole

end Context
end Narrative
