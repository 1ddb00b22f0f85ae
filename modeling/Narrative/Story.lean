import Narrative.Context.Op
import Narrative.StringTable.Op

/-!
A running story: a context together with the table of the strings that its values refer to.
-/
namespace Narrative

/-- The strings of the table live as long as the context holds on to them. -/
structure Story where
  context : Context
  strings : StringTable := {}

abbrev StoryM := EStateM StackError Story

namespace Story

inductive Op where
  | context (op : Context.Op)
  | strings (op : StringTable.Op)
  | markValue (v : Value)
  | markCalls
  | markEval
  | collectGarbage

inductive Answer where
  | done
  | freed (n : Nat)
  | context (a : Context.Answer)
  | strings (a : StringTable.Answer)

def onContext {β : Type} (action : ContextM β) : StoryM β :=
  onPart context (fun s c => { s with context := c }) action

def Op.perform : Op → StoryM Answer
  | .context op => do pure (.context (← onContext op.perform))
  | .strings op => fun s =>
    let (answer, t) := op.perform s.strings
    .ok (.strings answer) { s with strings := t }
  | .markValue v => do change fun s => { s with strings := v.markIn s.strings }; pure .done
  | .markCalls => do
    change fun s => { s with strings := CallStack.markIn s.context.calls s.strings }
    pure .done
  | .markEval => do
    change fun s => { s with strings := EvalStack.markIn s.context.eval s.strings }
    pure .done
  | .collectGarbage => fun s =>
    let (n, t) := s.context.collectGarbage s.strings
    .ok (.freed n) { s with strings := t }

end Story
end Narrative
