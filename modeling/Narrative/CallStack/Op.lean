import Narrative.CallStack.Basic
import Narrative.Stack.Op

/-!
The operations of a call stack as data. Entries are pushed and popped by frame and by variable only.
-/
namespace Narrative
namespace CallStack

inductive Op where
  | set (name : NameHash) (value : Value)
  | get (name : NameHash)
  | pushFrame (record : Frame)
  | popFrame
  | hasFrame
  | depth
  | control (k : Stack.Control)

inductive Answer where
  | stack (a : Stack.Answer Entry)
  | found (value : Option Value)
  /-- A frame was left that had this record. -/
  | left (record : Frame)

def Op.perform : Op → CallM Answer
  | .set name value => do CallStack.set name value; pure (.stack .done)
  | .get name => query fun s => .found (CallStack.get? s name)
  | .pushFrame record => do CallStack.pushFrame record; pure (.stack .done)
  | .popFrame => do pure (.left (← CallStack.popFrame))
  | .hasFrame => query fun s => .stack (.flag (CallStack.hasFrame s))
  | .depth => query fun s => .stack (.count (CallStack.depth s))
  | .control k => do pure (.stack (← k.perform))

end CallStack
end Narrative
