import Narrative.Json.Decode

/-!
The capacities of the stacks of a context, and how they are read. None of them may be zero.
-/
namespace Narrative

structure Config where
  call : UInt64 := 512
  eval : UInt64 := 256
  container : UInt64 := 128
  deriving DecidableEq, Inhabited

namespace Config

inductive Field where
  | call
  | eval
  | container
  deriving DecidableEq

def Field.name : Field → String
  | .call => "call_stack_size"
  | .eval => "eval_stack_size"
  | .container => "container_stack_size"

def get (c : Config) : Field → UInt64
  | .call => c.call
  | .eval => c.eval
  | .container => c.container

def fields : List Field := [.call, .eval, .container]

def zero? (c : Config) : Option Field := fields.find? fun f => c.get f == 0

inductive Error where
  | malformed
  | zeroCapacity (field : Field)
  deriving DecidableEq

def Error.message : Error → String
  -- stands for a message that goes on with what the reader found wrong with the text
  | .malformed => "invalid config"
  | .zeroCapacity field => field.name ++ " must be greater than zero"

def validate (c : Config) : Except Error Unit :=
  match c.zero? with
  | some f => .error (.zeroCapacity f)
  | none => .ok ()

def size? (default : UInt64) : Option Json → Option UInt64
  | none => some default
  | some j => j.word64?

def ofSizes? (call eval container : Option Json) : Option Config := do
  let d : Config := {}
  let call ← size? d.call call
  let eval ← size? d.eval eval
  let container ← size? d.container container
  pure { call, eval, container }

/-- An object with some of the fields, each at most once and no other members, or an array of the
first few sizes in the order of the fields. -/
def ofJson? : Json → Option Config
  | .obj members => do
    if members.all fun m => fields.any (·.name = m.1) then
      ofSizes? (← Json.member? Field.call.name members) (← Json.member? Field.eval.name members)
        (← Json.member? Field.container.name members)
    else none
  | .arr items => if items.length ≤ 3 then ofSizes? items[0]? items[1]? items[2]? else none
  | _ => none

def toJson (c : Config) : Json :=
  .obj (fields.map fun f => (f.name, .ofNat (c.get f).toNat))

/-- Read a configuration. That the text is malformed is found before any size is checked. -/
def parse (text : String) : Except Error Config := do
  match Json.parse? text >>= ofJson? with
  | none => .error .malformed
  | some c =>
    c.validate
    pure c

end Config

end Narrative
