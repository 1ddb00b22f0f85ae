import Narrative.Json.Basic
import Narrative.Json.Token

/-!
Reading a JSON value off its tokens with a stack of open arrays and objects. The whole text has to
be one value, and arrays and objects nest to a limited depth.
-/
namespace Narrative

/-- An array or object that has been opened: what it holds so far, last first, and for a member whose
value is due its name. -/
inductive Level where
  | array (items : List Json)
  | object (members : List (String × Json))
  | member (members : List (String × Json)) (name : String)

inductive Due where
  | value
  | itemOrEnd
  | nameOrEnd
  | name
  | colon
  /-- A value has been read: what follows it tells where it belongs. -/
  | next (v : Json)

structure Reader where
  levels : List Level := []
  due : Due := .value

namespace Reader

def maxDepth : Nat := 127

def enter (ls : List Level) (l : Level) (due : Due) : Option Reader :=
  if ls.length < maxDepth then some ⟨l :: ls, due⟩ else none

def value (ls : List Level) : Token → Option Reader
  | .null => some ⟨ls, .next .null⟩
  | .bool b => some ⟨ls, .next (.bool b)⟩
  | .num n => some ⟨ls, .next (.num n)⟩
  | .str s => some ⟨ls, .next (.str s)⟩
  | .leftBracket => enter ls (.array []) .itemOrEnd
  | .leftBrace => enter ls (.object []) .nameOrEnd
  | _ => none

def name : List Level → Token → Option Reader
  | .object ms :: ls, .str k => some ⟨.member ms k :: ls, .colon⟩
  | _, _ => none

def next (v : Json) : List Level → Token → Option Reader
  | .array items :: ls, .comma => some ⟨.array (v :: items) :: ls, .value⟩
  | .array items :: ls, .rightBracket => some ⟨ls, .next (.arr (v :: items).reverse)⟩
  | .member ms k :: ls, .comma => some ⟨.object ((k, v) :: ms) :: ls, .name⟩
  | .member ms k :: ls, .rightBrace => some ⟨ls, .next (.obj ((k, v) :: ms).reverse)⟩
  | _, _ => none

def step (r : Reader) (t : Token) : Option Reader :=
  match r.due, r.levels, t with
  | .itemOrEnd, .array _ :: ls, .rightBracket => some ⟨ls, .next (.arr [])⟩
  | .nameOrEnd, .object _ :: ls, .rightBrace => some ⟨ls, .next (.obj [])⟩
  | .value, ls, t => value ls t
  | .itemOrEnd, ls, t => value ls t
  | .nameOrEnd, ls, t => name ls t
  | .name, ls, t => name ls t
  | .colon, ls, .colon => some ⟨ls, .value⟩
  | .colon, _, _ => none
  | .next v, ls, t => next v ls t

def finish : Reader → Option Json
  | ⟨[], .next v⟩ => some v
  | _ => none

end Reader

namespace Json

def ofTokens? (ts : List Token) : Option Json := do
  (← ts.foldlM Reader.step {}).finish

def parse? (text : String) : Option Json := do
  ofTokens? (← Token.scan text.toList)

end Json

end Narrative
