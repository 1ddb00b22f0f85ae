import Narrative.Proofs.CallStack.Plain
import Narrative.Proofs.Context.Outcomes

/-! The invariant of a context: each of its stacks is well formed and keeps its capacity and its null
element. It holds when a context is made and after every operation, failed ones included. -/
namespace Narrative
namespace Context
open Stack
variable {config : Config}

structure Sound (config : Config) (c : Context) : Prop where
  calls : CallStack.Sound c.calls config.call.toNat
  eval : Stack.Sound c.eval config.eval.toNat Value.none
  containers : Stack.Sound c.containers config.container.toNat ContainerId.none

theorem eq_of_ofConfig {c : Context} (h : ofConfig config = .ok c) :
    c = ⟨CallStack.ofCapacity config.call.toNat, EvalStack.ofCapacity config.eval.toNat,
      Stack.ofCapacity config.container.toNat ContainerId.none⟩ := by
  cases hv : config.validate with
  | error e => simp [ofConfig, hv, bind, Except.bind] at h
  | ok _ => simpa [ofConfig, hv, bind, Except.bind, pure, Except.pure, eq_comm] using h

theorem sound_ofConfig {c : Context} (h : ofConfig config = .ok c) : c.Sound config := by
  rw [eq_of_ofConfig h]
  exact ⟨⟨CallStack.wellFramed_ofSlots _, Array.size_replicate⟩,
    ⟨wellFormed_ofSlots _ _, Array.size_replicate, rfl⟩,
    ⟨wellFormed_ofSlots _ _, Array.size_replicate, rfl⟩⟩

theorem preserves_sound_onCalls {β : Type} {action : CallM β}
    (h : Preserves (CallStack.Sound · config.call.toNat) action) :
    Preserves (Sound config) (onCalls action) :=
  h.onPart (fun _ hc => hc.calls) fun _ _ hc hs => ⟨hs, hc.eval, hc.containers⟩

theorem preserves_sound_onEval {β : Type} {action : StackM Value β}
    (h : Preserves (Stack.Sound · config.eval.toNat Value.none) action) :
    Preserves (Sound config) (onEval action) :=
  h.onPart (fun _ hc => hc.eval) fun _ _ hc hs => ⟨hc.calls, hs, hc.containers⟩

theorem preserves_sound_onContainers {β : Type} {action : StackM ContainerId β}
    (h : Preserves (Stack.Sound · config.container.toNat ContainerId.none) action) :
    Preserves (Sound config) (onContainers action) :=
  h.onPart (fun _ hc => hc.containers) fun _ _ hc hs => ⟨hc.calls, hc.eval, hs⟩

theorem preserves_sound_onAll {action : {α : Type} → StackM α Unit}
    (hcalls : Preserves (CallStack.Sound · config.call.toNat) action)
    (hstack : ∀ (α : Type) [BEq α] (capacity : Nat) (null : α), (null == null) = true →
      Preserves (Stack.Sound · capacity null) action) :
    Preserves (Sound config) (onAll action) :=
  (preserves_sound_onCalls hcalls).bind fun _ =>
    (preserves_sound_onEval (hstack Value _ _ rfl)).bind fun _ =>
      preserves_sound_onContainers (hstack ContainerId _ _ rfl)

/-- A context saves, restores and forgets as its stacks do. -/
theorem preserves_sound_onAll_control {action : {α : Type} → StackM α Unit} {k : Control}
    (hk : ∀ (α : Type) [BEq α],
      (k.perform : StackM α (Stack.Answer α)) = action >>= fun _ => pure .done) :
    Preserves (Sound config) (onAll action) := by
  refine preserves_sound_onAll ?_ fun α _ capacity null hnull => ?_
  · have hop : Preserves (CallStack.Sound · config.call.toNat) (CallStack.Op.control k).perform :=
      fun _ hs => (CallStack.op_follows hs (.control k)).1
    have hcontrol := hop.of_bind_pure
    rw [hk] at hcontrol
    exact hcontrol.of_bind_pure
  · have hcontrol : Preserves (Stack.Sound · capacity null) (k.perform : StackM α _) :=
      fun _ hs => (Stack.control_follows hs hnull k).1
    rw [hk] at hcontrol
    exact hcontrol.of_bind_pure

theorem preserves_sound_containersOp (config : Config) (op : Stack.Op ContainerId) :
    Preserves (Stack.Sound · config.container.toNat ContainerId.none) op.perform :=
  fun _ hs => (Stack.op_follows hs rfl op).1

theorem preserves_sound_op (op : Op) : Preserves (Sound config) op.perform := by
  -- an operation on one stack preserves what is sound of that one, and a refusal changes nothing
  cases op with
  | enter id =>
    have hpush := (preserves_sound_containersOp config (.push id)).of_bind_pure
    exact (preserves_sound_onContainers hpush).bind fun _ => .pure _
  | leave =>
    have hpop := (preserves_sound_containersOp config .pop).of_bind_pure
    exact (preserves_sound_onContainers hpop).bind fun _ => .pure _
  | current | depth | hasSnapshot => exact .query _
  | save =>
    have hsave : Preserves (Sound config) save :=
      .guarded (.throw _) (preserves_sound_onAll_control (k := .save) fun _ => rfl)
    exact hsave.bind fun _ => .pure _
  | restore =>
    have hrestore : Preserves (Sound config) restore :=
      .guarded (preserves_sound_onAll_control (k := .restore) fun _ => rfl) (.throw _)
    exact hrestore.bind fun _ => .pure _
  | forget =>
    have hforget : Preserves (Sound config) forget :=
      .guarded (preserves_sound_onAll_control (k := .forget) fun _ => rfl) (.throw _)
    exact hforget.bind fun _ => .pure _
  | reset =>
    intro c hc
    exact ⟨(CallStack.control_follows hc.calls .reset).1,
      (Stack.control_follows hc.eval rfl .reset).1,
      (Stack.control_follows hc.containers rfl .reset).1⟩
  | calls op =>
    exact (preserves_sound_onCalls fun _ hs => (CallStack.op_follows hs op).1).bind fun _ => .pure _
  | eval op =>
    exact (preserves_sound_onEval fun _ hs => (Stack.op_follows hs rfl op).1).bind fun _ => .pure _

theorem sound_attempts {c : Context} (hc : ofConfig config = .ok c) (ops : List Op) :
    (attempts Op.perform ops c).2.Sound config :=
  attempts_preserve (fun op _ => preserves_sound_op op) (sound_ofConfig hc)

end Context
end Narrative
