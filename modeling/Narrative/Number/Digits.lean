/-!
Decimal digits: their value, and the parts that numerals are made of.
-/
namespace Narrative
namespace Digits

def ofChar (c : Char) : Nat := c.toNat - '0'.toNat

def value (digits : List Nat) : Nat := digits.foldl (fun n d => 10 * n + d) 0

def ofNat (n : Nat) : List Nat := (Nat.toDigits 10 n).map ofChar

def ofChars? (cs : List Char) : Option (List Nat) :=
  if cs ≠ [] ∧ cs.all Char.isDigit then some (cs.map ofChar) else none

/-- An optional sign and at least one digit. -/
def signed? : List Char → Option Int
  | '+' :: cs => (ofChars? cs).map fun ds => (value ds : Int)
  | '-' :: cs => (ofChars? cs).map fun ds => -(value ds : Int)
  | cs => (ofChars? cs).map fun ds => (value ds : Int)

/-- The end of a numeral: nothing, or the mark of an exponent and a signed number. -/
def exponent? : List Char → Option (Option Int)
  | [] => some none
  | c :: cs => if c = 'e' ∨ c = 'E' then (signed? cs).map some else none

end Digits
end Narrative
