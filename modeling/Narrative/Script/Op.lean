import Narrative.Json.Data

/-!
The operations of a script and how they are read. An operation is an object with a member `op` and
its fields in any order, or an array of its name and its fields in their order.
-/
namespace Narrative
namespace Script

inductive Target where
  | eval
  | call
  deriving DecidableEq

def Target.text : Target → String
  | .eval => "eval"
  | .call => "call"

def Target.ofJson? (j : Json) : Option Target := do
  match ← j.bareChoice? true with
  | "eval" => some .eval
  | "call" => some .call
  | _ => none

inductive Verb where
  | push
  | pop
  | top
  | set
  | get
  | pushFrame
  | popFrame
  | hasFrame
  | save
  | restore
  | forget
  | size
  | dump
  | clear
  deriving DecidableEq

namespace Verb

def text : Verb → String
  | .push => "push"
  | .pop => "pop"
  | .top => "top"
  | .set => "set"
  | .get => "get"
  | .pushFrame => "push_frame"
  | .popFrame => "pop_frame"
  | .hasFrame => "has_frame"
  | .save => "save"
  | .restore => "restore"
  | .forget => "forget"
  | .size => "size"
  | .dump => "dump"
  | .clear => "clear"

def all : List Verb :=
  [.push, .pop, .top, .set, .get, .pushFrame, .popFrame, .hasFrame, .save, .restore, .forget, .size,
    .dump, .clear]

def ofText? (name : String) : Option Verb := all.find? (·.text = name)

def fields : Verb → List String
  | .push => ["value"]
  | .set => ["name", "value"]
  | .get => ["name"]
  | .pushFrame => ["return_to", "kind"]
  | .save | .restore | .forget | .size | .dump | .clear => ["stack"]
  | .pop | .top | .popFrame | .hasFrame => []

end Verb

/-- An operation. A save, restore or forget that names no stack is for the whole context. -/
inductive Op where
  | push (value : Value)
  | pop
  | top
  | set (name : String) (value : Value)
  | get (name : String)
  | pushFrame (record : Frame)
  | popFrame
  | hasFrame
  | save (stack : Option Target)
  | restore (stack : Option Target)
  | forget (stack : Option Target)
  | size (stack : Target)
  | dump (stack : Target)
  | clear (stack : Target)

namespace Op

def verb : Op → Verb
  | .push _ => .push
  | .pop => .pop
  | .top => .top
  | .set _ _ => .set
  | .get _ => .get
  | .pushFrame _ => .pushFrame
  | .popFrame => .popFrame
  | .hasFrame => .hasFrame
  | .save _ => .save
  | .restore _ => .restore
  | .forget _ => .forget
  | .size _ => .size
  | .dump _ => .dump
  | .clear _ => .clear

/-- The stack of an operation that is for the whole context unless one is named. -/
def scope? : Option Json → Option (Option Target)
  | none | some .null => some none
  | some j => (Target.ofJson? j).map some

/-- The stack of an operation that is for the evaluation stack unless one is named. -/
def target? : Option Json → Option Target
  | none => some .eval
  | some j => Target.ofJson? j

def frame? (returnTo kind : Json) : Option Frame := do
  let returnTo ← returnTo.word32?
  let kind ← FrameKind.ofJson? true kind
  pure { returnTo, kind }

def build? : Verb → List (Option Json) → Option Op
  | .push, [some v] => (Value.ofJson? true v).map .push
  | .pop, [] => some .pop
  | .top, [] => some .top
  | .set, [some n, some v] => do pure (.set (← n.str?) (← Value.ofJson? true v))
  | .get, [some n] => n.str?.map .get
  | .pushFrame, [some r, some k] => (frame? r k).map .pushFrame
  | .popFrame, [] => some .popFrame
  | .hasFrame, [] => some .hasFrame
  | .save, [s] => (scope? s).map .save
  | .restore, [s] => (scope? s).map .restore
  | .forget, [s] => (scope? s).map .forget
  | .size, [s] => (target? s).map .size
  | .dump, [s] => (target? s).map .dump
  | .clear, [s] => (target? s).map .clear
  | _, _ => none

/-- The members that are no fields of the operation are passed over, whatever they are. -/
def ofMembers? (members : List (String × Json)) : Option Op := do
  let name ← (← Json.member? "op" members) >>= Json.str?
  let verb ← Verb.ofText? name
  build? verb (← verb.fields.mapM fun f => Json.member? f members)

/-- Fields at the end may be left out, but nothing may follow the last one. -/
def ofItems? (name : String) (items : List Json) : Option Op := do
  let verb ← Verb.ofText? name
  let count := verb.fields.length
  if items.length ≤ count then
    build? verb (items.map some ++ List.replicate (count - items.length) none)
  else none

def ofJson? : Json → Option Op
  | .obj members => ofMembers? members
  | .arr (.str name :: items) => ofItems? name items
  | _ => none

end Op

end Script

abbrev Script := List Script.Op

namespace Script

def ofJson? : Json → Option Script
  | .arr items => items.mapM Op.ofJson?
  | _ => none

/-- A script is read as a whole before any of it runs. -/
def parse? (text : String) : Option Script := do ofJson? (← Json.parse? text)

end Script
end Narrative
