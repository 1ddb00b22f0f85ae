import Narrative.Number.Binary32
import Narrative.StringTable.Basic

/-!
The values of a running story, and the records of its frames.
-/
namespace Narrative

/-- How a frame was entered, which decides how a diversion returns from it. -/
inductive FrameKind where
  | tunnel
  | function
  deriving DecidableEq, Inhabited

def FrameKind.text : FrameKind → String
  | .tunnel => "tunnel"
  | .function => "function"

abbrev Offset := UInt32

structure Frame where
  returnTo : Offset
  kind : FrameKind
  deriving DecidableEq, Inhabited

inductive Value where
  /-- Never stored as data: it stands in the slots that hold nothing. -/
  | none
  | int (n : Int32)
  | float (x : Binary32)
  | bool (b : Bool)
  | str (id : StringId)
  | divert (target : Offset)
  | frame (record : Frame)
  deriving Inhabited

namespace Value

/-- Values are equal if they are of one kind and their payloads are equal; floats compare as numbers. -/
instance : BEq Value where
  beq
    | .none, .none => true
    | .int a, .int b => a == b
    | .float a, .float b => a == b
    | .bool a, .bool b => a == b
    | .str a, .str b => a == b
    | .divert a, .divert b => a == b
    | .frame a, .frame b => a == b
    | _, _ => false

def isNone : Value → Bool
  | .none => true
  | _ => false

def asFrame : Value → Option Frame
  | .frame r => some r
  | _ => Option.none

def text : Value → String
  | .none => "none"
  | .int n => toString n.toInt
  | .float x => x.text
  | .bool b => if b then "true" else "false"
  | .str id => "str#" ++ toString id.index.toNat
  | .divert t => "-> " ++ toString t.toNat
  | .frame r => r.kind.text ++ "(ret " ++ toString r.returnTo.toNat ++ ")"

def markIn : Value → StringTable → StringTable
  | .str id, t => t.mark id
  | _, t => t

end Value

end Narrative
