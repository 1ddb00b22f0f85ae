/-!
The ways in which an operation on the stacks of a story fails, and how they are reported.
-/
namespace Narrative

inductive StackError where
  | overflow (capacity : Nat)
  | underflow
  | nullPushed
  | reservedName
  | clearWhileSaved
  | savedTwice
  | restoreUnsaved
  | forgetUnsaved
  | contextSavedTwice
  | contextRestoreUnsaved
  | contextForgetUnsaved
  /-- A frame was to be popped off a call stack that has entries but no frame. -/
  | noFrame
  | boundaryWithoutFrame
  deriving DecidableEq

namespace StackError

inductive Kind where
  | overflow
  | underflow
  | invalidArgument
  | invalidState
  deriving DecidableEq

def kind : StackError → Kind
  | .overflow _ => .overflow
  | .underflow => .underflow
  | .nullPushed | .reservedName => .invalidArgument
  | _ => .invalidState

def reason : StackError → String
  | .overflow capacity => "(capacity " ++ toString capacity ++ ")"
  | .underflow => ""
  | .nullPushed => "the null value can not be pushed"
  | .reservedName => "variable name hashes to the frame marker"
  | .clearWhileSaved => "can not clear() with an outstanding save; restore() or forget() first"
  | .savedTwice => "can not save stack twice; restore() or forget() first"
  | .restoreUnsaved => "can not restore() when there is no save"
  | .forgetUnsaved => "can not forget() when the stack has never been saved"
  | .contextSavedTwice => "can not save context twice; restore() or forget() first"
  | .contextRestoreUnsaved => "can not restore() context without a save on every stack"
  | .contextForgetUnsaved => "can not forget() context without a save on every stack"
  | .noFrame => "pop_frame() with no frame on the call stack"
  | .boundaryWithoutFrame => "frame boundary without a frame record"

def message (e : StackError) : String :=
  match e.kind with
  | .overflow => "stack overflow " ++ e.reason
  | .underflow => "stack underflow"
  | .invalidArgument => "invalid argument: " ++ e.reason
  | .invalidState => "invalid state: " ++ e.reason

end StackError

end Narrative
