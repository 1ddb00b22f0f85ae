import Narrative.Value
import Narrative.Stack.Operations

/-!
The evaluation stack: the values of the expressions being computed.
-/
namespace Narrative

/-- A stack of values, the empty value being reserved. -/
abbrev EvalStack := Stack Value

namespace EvalStack

def ofCapacity (capacity : Nat) : EvalStack := Stack.ofCapacity capacity Value.none

def markIn (s : EvalStack) (t : StringTable) : StringTable :=
  s.live.foldl (fun t v => v.markIn t) t

end EvalStack

end Narrative
