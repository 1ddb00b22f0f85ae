import Narrative.StringTable.Basic

/-!
The operations of a string table as data.
-/
namespace Narrative
namespace StringTable

inductive Op where
  | create (text : String)
  | get (id : StringId)
  | mark (id : StringId)
  | sweep
  | size
  | isEmpty

inductive Answer where
  | done
  | created (id : StringId)
  | text (text : Option String)
  | count (n : Nat)
  | flag (b : Bool)
  deriving DecidableEq

def Op.perform (t : StringTable) : Op → Answer × StringTable
  | .create text => let (id, t) := t.create text; (.created id, t)
  | .get id => (.text (t.get? id), t)
  | .mark id => (.done, t.mark id)
  | .sweep => let (n, t) := t.sweep; (.count n, t)
  | .size => (.count t.size, t)
  | .isEmpty => (.flag t.isEmpty, t)

/-- The answers of operations in order, and the table after the last. -/
def performAll (t : StringTable) : List Op → List Answer × StringTable
  | [] => ([], t)
  | op :: ops =>
    let (answer, t) := op.perform t
    let (answers, t) := performAll t ops
    (answer :: answers, t)

end StringTable
end Narrative
