import Narrative.Context.Op
import Narrative.Script.Op

/-!
Running scripts on a context: what each operation does and prints, and a run that stops at the first
operation that fails.
-/
namespace Narrative

def bracketed (items : List String) : String :=
  "[" ++ ", ".intercalate items ++ "]"

def flagText (b : Bool) : String := if b then "true" else "false"

/-- The line printed for an answer, if it says anything. -/
def Stack.Answer.line {α : Type} (text : α → String) : Stack.Answer α → Option String
  | .done => none
  | .element v => some (text v)
  | .elements vs => some (bracketed (vs.map text))
  | .count n => some (toString n)
  | .flag b => some (flagText b)
  | .stepped v _ => v.map text

def CallStack.Answer.line : CallStack.Answer → Option String
  | .stack a => a.line Entry.text
  | .found (some v) => some v.text
  | .found none => some "not found"
  | .left record => some (toString record.returnTo.toNat ++ " " ++ record.kind.text)

def Context.Answer.line : Context.Answer → Option String
  | .done => none
  | .container id => some (toString id.index.toNat)
  | .current id => id.map fun id => toString id.index.toNat
  | .count n => some (toString n)
  | .flag b => some (flagText b)
  | .calls a => a.line
  | .eval a => a.line Value.text

namespace Script

def Target.control (k : Stack.Control) : Target → Context.Op
  | .eval => .eval (.control k)
  | .call => .calls (.control k)

def Op.action : Op → Context.Op
  | .push v => .eval (.push v)
  | .pop => .eval .pop
  | .top => .eval .peek
  | .set name v => .calls (.set (.ofName name) v)
  | .get name => .calls (.get (.ofName name))
  | .pushFrame record => .calls (.pushFrame record)
  | .popFrame => .calls .popFrame
  | .hasFrame => .calls .hasFrame
  | .save none => .save
  | .save (some t) => t.control .save
  | .restore none => .restore
  | .restore (some t) => t.control .restore
  | .forget none => .forget
  | .forget (some t) => t.control .forget
  | .size t => t.control .size
  | .dump t => t.control .toList
  | .clear t => t.control .clear

def Op.execute (op : Op) : ContextM (Option String) := do
  pure (← op.action.perform).line

structure Failure where
  index : Nat
  verb : Verb
  error : StackError
  deriving DecidableEq

def Failure.message (f : Failure) : String :=
  "op " ++ toString f.index ++ " (" ++ f.verb.text ++ "): " ++ f.error.message

structure Outcome where
  lines : List String
  failure : Option Failure
  context : Context

/-- Run operations in order, the first of them counted as `index`, up to the first that fails. -/
def runFrom (index : Nat) : Script → Context → Outcome
  | [], c => ⟨[], none, c⟩
  | op :: ops, c =>
    match op.execute c with
    | .ok line c =>
      let o := runFrom (index + 1) ops c
      { o with lines := line.toList ++ o.lines }
    | .error e c => ⟨[], some ⟨index, op.verb, e⟩, c⟩

def run (ops : Script) (c : Context) : Outcome := runFrom 0 ops c

end Script
end Narrative
