import Narrative.Json.Numeral

/-!
The tokens of a JSON text. The scanner is an automaton that is fed one character at a time: outside
a string a numeral or a word goes on as long as its characters do, inside a string escapes are
resolved as they are met.
-/
namespace Narrative

inductive Token where
  | leftBrace
  | rightBrace
  | leftBracket
  | rightBracket
  | colon
  | comma
  | null
  | bool (b : Bool)
  | num (n : Numeral)
  | str (s : String)
  deriving DecidableEq

namespace Token

/-- The numeral of a number token: one past the largest double is refused. -/
def number? (cs : List Char) : Option Token := do
  let n ← Numeral.ofChars? cs
  let _ ← n.double?
  pure (.num n)

def word? (cs : List Char) : Option Token :=
  match String.ofList cs with
  | "null" => some .null
  | "true" => some (.bool true)
  | "false" => some (.bool false)
  | _ => none

end Token

/-- Where the scanner is inside a string: at a plain character, after a backslash, or among the four
hexadecimal digits of a code unit, with the value and the number of those read. -/
inductive StringPart where
  | plain
  | escape
  | unit (value count : Nat)
  deriving DecidableEq

/-- What the scanner is inside of. Characters read so far are held last first. Inside a string, a
first half of a surrogate pair that still lacks the second is held too. -/
inductive Lexeme where
  | between
  | number (cs : List Char)
  | word (cs : List Char)
  | string (cs : List Char) (part : StringPart) (high : Option Nat)
  deriving DecidableEq

structure Scanner where
  tokens : List Token := []
  lexeme : Lexeme := .between
  deriving DecidableEq

namespace Scanner

def isNumberChar (c : Char) : Bool :=
  c.isDigit || c = '-' || c = '+' || c = '.' || c = 'e' || c = 'E'

def isWordChar (c : Char) : Bool := c.isLower

def emit (ts : List Token) (t : Token) : Scanner := ⟨t :: ts, .between⟩

/-- A character that begins a lexeme, is one by itself, or is a space. -/
def start (ts : List Token) (c : Char) : Option Scanner :=
  match c with
  | ' ' | '\t' | '\n' | '\r' => some ⟨ts, .between⟩
  | '\x7b' => some (emit ts .leftBrace)
  | '\x7d' => some (emit ts .rightBrace)
  | '[' => some (emit ts .leftBracket)
  | ']' => some (emit ts .rightBracket)
  | ':' => some (emit ts .colon)
  | ',' => some (emit ts .comma)
  | '"' => some ⟨ts, .string [] .plain none⟩
  | _ =>
    if c.isDigit || c = '-' then some ⟨ts, .number [c]⟩
    else if isWordChar c then some ⟨ts, .word [c]⟩
    else none

def simpleEscape? : Char → Option Char
  | '"' => some '"'
  | '\\' => some '\\'
  | '/' => some '/'
  | 'b' => some '\x08'
  | 'f' => some '\x0c'
  | 'n' => some '\n'
  | 'r' => some '\r'
  | 't' => some '\t'
  | _ => none

def hexDigit? (c : Char) : Option Nat :=
  if c.isDigit then some (c.toNat - '0'.toNat)
  else if 'a' ≤ c ∧ c ≤ 'f' then some (c.toNat - 'a'.toNat + 10)
  else if 'A' ≤ c ∧ c ≤ 'F' then some (c.toNat - 'A'.toNat + 10)
  else none

/-- A code unit has been read whole. The first half of a pair waits for the second; a half without
the other is refused. -/
def finishUnit (cs : List Char) (high : Option Nat) (u : Nat) : Option Lexeme :=
  match high with
  | none =>
    if 0xD800 ≤ u ∧ u < 0xDC00 then some (.string cs .plain (some u))
    else if 0xDC00 ≤ u ∧ u < 0xE000 then none
    else some (.string (Char.ofNat u :: cs) .plain none)
  | some h =>
    if 0xDC00 ≤ u ∧ u < 0xE000 then
      some (.string (Char.ofNat (0x10000 + (h - 0xD800) * 0x400 + (u - 0xDC00)) :: cs) .plain none)
    else none

def inString (ts : List Token) (cs : List Char) (high : Option Nat) (c : Char) :
    StringPart → Option Scanner
  | .plain =>
    if c = '\\' then some ⟨ts, .string cs .escape high⟩
    else if high.isSome then none
    else if c = '"' then some (emit ts (.str (String.ofList cs.reverse)))
    else if c.toNat < 32 then none
    else some ⟨ts, .string (c :: cs) .plain none⟩
  | .escape =>
    if c = 'u' then some ⟨ts, .string cs (.unit 0 0) high⟩
    else if high.isSome then none
    else (simpleEscape? c).map fun e => ⟨ts, .string (e :: cs) .plain none⟩
  | .unit value count => do
    let d ← hexDigit? c
    let value := 16 * value + d
    if count = 3 then (finishUnit cs high value).map fun l => ⟨ts, l⟩
    else some ⟨ts, .string cs (.unit value (count + 1)) high⟩

def step (s : Scanner) (c : Char) : Option Scanner :=
  match s.lexeme with
  | .between => start s.tokens c
  | .number cs =>
    if isNumberChar c then some ⟨s.tokens, .number (c :: cs)⟩
    else do start ((← Token.number? cs.reverse) :: s.tokens) c
  | .word cs =>
    if isWordChar c then some ⟨s.tokens, .word (c :: cs)⟩
    else do start ((← Token.word? cs.reverse) :: s.tokens) c
  | .string cs part high => inString s.tokens cs high c part

/-- The tokens at the end of the text, which ends a numeral or a word but no string. -/
def finish (s : Scanner) : Option (List Token) :=
  match s.lexeme with
  | .between => some s.tokens.reverse
  | .number cs => do pure ((← Token.number? cs.reverse) :: s.tokens).reverse
  | .word cs => do pure ((← Token.word? cs.reverse) :: s.tokens).reverse
  | .string .. => none

end Scanner

def Token.scan (cs : List Char) : Option (List Token) := do
  (← cs.foldlM Scanner.step {}).finish

end Narrative
