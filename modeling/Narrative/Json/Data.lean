import Narrative.Value
import Narrative.Name
import Narrative.Container
import Narrative.Json.Decode

/-!
The values of a story in JSON. A value is `"none"` or an object whose one member names its kind.
Inside a script an empty object also stands for nothing.
-/
namespace Narrative

namespace FrameKind

def ofJson? (inScript : Bool) (j : Json) : Option FrameKind := do
  match ← j.bareChoice? inScript with
  | "tunnel" => some .tunnel
  | "function" => some .function
  | _ => none

def toJson (k : FrameKind) : Json := .str k.text

end FrameKind

namespace NameHash

def ofJson? (j : Json) : Option NameHash := j.word32?.map NameHash.mk

def toJson (h : NameHash) : Json := .ofNat h.bits.toNat

end NameHash

namespace StringId

def ofJson? (j : Json) : Option StringId := j.word32?.map StringId.mk

def toJson (id : StringId) : Json := .ofNat id.index.toNat

end StringId

namespace ContainerId

def ofJson? (j : Json) : Option ContainerId := j.word32?.map ContainerId.mk

def toJson (id : ContainerId) : Json := .ofNat id.index.toNat

end ContainerId

namespace Value

def ofJson? (inScript : Bool) (j : Json) : Option Value := do
  match ← j.choice? with
  | ("none", payload) => if Json.isNothing inScript payload then some .none else Option.none
  | ("int", some p) => p.int32?.map .int
  | ("float", some p) => p.single?.map .float
  | ("bool", some p) => p.bool?.map .bool
  | ("str", some p) => (StringId.ofJson? p).map .str
  | ("divert", some p) => p.word32?.map .divert
  | ("tunnel_frame", some p) => p.word32?.map fun o => .frame ⟨o, .tunnel⟩
  | ("function_frame", some p) => p.word32?.map fun o => .frame ⟨o, .function⟩
  | _ => Option.none

/-- The JSON of a value. A float is written with the digits of its text, one that is not finite as
null. -/
def toJson : Value → Json
  | .none => .str "none"
  | .int n => .obj [("int", .ofInt n.toInt)]
  | .float x => .obj [("float", floatJson x)]
  | .bool b => .obj [("bool", .bool b)]
  | .str id => .obj [("str", id.toJson)]
  | .divert t => .obj [("divert", .ofNat t.toNat)]
  | .frame ⟨o, .tunnel⟩ => .obj [("tunnel_frame", .ofNat o.toNat)]
  | .frame ⟨o, .function⟩ => .obj [("function_frame", .ofNat o.toNat)]
where
  floatJson (x : Binary32) : Json :=
    match Numeral.ofChars? x.text.toList with
    | some n => .num n
    | Option.none => .null

end Value

end Narrative
