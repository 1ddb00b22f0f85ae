import Narrative.Context.Basic
import Narrative.CallStack.Op

/-!
The operations of a context as data: those on the whole, and those on one of its stacks.
-/
namespace Narrative
namespace Context

inductive Op where
  | enter (id : ContainerId)
  | leave
  | current
  /-- How many containers have been entered and not left. -/
  | depth
  | hasSnapshot
  | save
  | restore
  | forget
  | reset
  | calls (op : CallStack.Op)
  | eval (op : Stack.Op Value)

inductive Answer where
  | done
  | container (id : ContainerId)
  | current (id : Option ContainerId)
  | count (n : Nat)
  | flag (b : Bool)
  | calls (a : CallStack.Answer)
  | eval (a : Stack.Answer Value)

def Op.perform : Op → ContextM Answer
  | .enter id => do Context.enter id; pure .done
  | .leave => do pure (.container (← Context.leave))
  | .current => query fun c => .current c.current?
  | .depth => query fun c => .count c.containers.size
  | .hasSnapshot => query fun c => .flag c.hasSnapshot
  | .save => do Context.save; pure .done
  | .restore => do Context.restore; pure .done
  | .forget => do Context.forget; pure .done
  | .reset => do change Context.reset; pure .done
  | .calls op => do pure (.calls (← onCalls op.perform))
  | .eval op => do pure (.eval (← onEval op.perform))

end Context
end Narrative
