import Narrative.Attempt
import Narrative.CallStack.Basic
import Narrative.EvalStack
import Narrative.Container
import Narrative.Config

/-!
The state of a running story: its call stack, its evaluation stack, and the containers it is in.
A save of the context saves all three, and a restore or forget of the context ends all three saves; each
is refused before any of the stacks is touched.
-/
namespace Narrative

structure Context where
  calls : CallStack
  eval : EvalStack
  containers : Stack ContainerId

abbrev ContextM := EStateM StackError Context

namespace Context

def ofConfig (c : Config) : Except Config.Error Context := do
  c.validate
  pure
    { calls := CallStack.ofCapacity c.call.toNat
      eval := EvalStack.ofCapacity c.eval.toNat
      containers := Stack.ofCapacity c.container.toNat ContainerId.none }

def onCalls {β : Type} (action : CallM β) : ContextM β :=
  onPart calls (fun c s => { c with calls := s }) action

def onEval {β : Type} (action : StackM Value β) : ContextM β :=
  onPart eval (fun c s => { c with eval := s }) action

def onContainers {β : Type} (action : StackM ContainerId β) : ContextM β :=
  onPart containers (fun c s => { c with containers := s }) action

/-- An action that all kinds of stacks have, on each of the three in turn. -/
def onAll (action : {α : Type} → StackM α Unit) : ContextM Unit := do
  onCalls action
  onEval action
  onContainers action

def enter (id : ContainerId) : ContextM Unit := onContainers (Stack.push id)

def leave : ContextM ContainerId := onContainers Stack.pop

def current? (c : Context) : Option ContainerId := c.containers.peek?

def hasSnapshot (c : Context) : Bool :=
  c.calls.hasSnapshot || c.eval.hasSnapshot || c.containers.hasSnapshot

def allSaved (c : Context) : Bool :=
  c.calls.hasSnapshot && c.eval.hasSnapshot && c.containers.hasSnapshot

def save : ContextM Unit := fun c =>
  if c.hasSnapshot then .error .contextSavedTwice c else onAll Stack.save c

def restore : ContextM Unit := fun c =>
  if c.allSaved then onAll Stack.restore c else .error .contextRestoreUnsaved c

def forget : ContextM Unit := fun c =>
  if c.allSaved then onAll Stack.forget c else .error .contextForgetUnsaved c

def reset (c : Context) : Context :=
  { calls := c.calls.reset, eval := c.eval.reset, containers := c.containers.reset }

/-- Free every text that neither stack holds, and count what was freed. -/
def collectGarbage (c : Context) (t : StringTable) : Nat × StringTable :=
  (EvalStack.markIn c.eval (CallStack.markIn c.calls t)).sweep

end Context

end Narrative
