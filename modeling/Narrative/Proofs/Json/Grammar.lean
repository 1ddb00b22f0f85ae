import Narrative.Json.Basic

/-! The texts that a JSON value may have: space may stand around values and names, characters of a
string may be escaped in several ways, and exponents may be marked and signed in several ways. -/
namespace Narrative

namespace Numeral

def DigitList (ds : List Nat) : Prop := ds ≠ [] ∧ ∀ d ∈ ds, d < 10

inductive ExponentText : Option Int → List Char → Prop where
  | absent : ExponentText none []
  | plain {mark ds} (hmark : mark = 'e' ∨ mark = 'E') (hds : DigitList ds) :
    ExponentText (some (Digits.value ds)) (mark :: ds.map Nat.digitChar)
  | plus {mark ds} (hmark : mark = 'e' ∨ mark = 'E') (hds : DigitList ds) :
    ExponentText (some (Digits.value ds)) (mark :: '+' :: ds.map Nat.digitChar)
  | minus {mark ds} (hmark : mark = 'e' ∨ mark = 'E') (hds : DigitList ds) :
    ExponentText (some (-(Digits.value ds : Int))) (mark :: '-' :: ds.map Nat.digitChar)

def signChars (n : Numeral) : List Char := if n.negative then ['-'] else []

def pointChars (n : Numeral) : List Char :=
  if n.fraction = [] then [] else '.' :: n.fraction.map Nat.digitChar

/-- The whole digits do not begin with a zero, unless it is the only one. -/
structure WellFormed (n : Numeral) : Prop where
  whole : DigitList n.whole
  noLeadingZero : n.whole = [0] ∨ n.whole.head? ≠ some 0
  fraction : ∀ d ∈ n.fraction, d < 10

def Written (n : Numeral) (cs : List Char) : Prop :=
  n.WellFormed ∧ ∃ tail, ExponentText n.exponent tail ∧
    cs = n.signChars ++ (n.whole.map Nat.digitChar ++ (n.pointChars ++ tail))

end Numeral

namespace Json

def Blank (cs : List Char) : Prop := ∀ c ∈ cs, c = ' ' ∨ c = '\t' ∨ c = '\n' ∨ c = '\r'

def HexDigit (d : Nat) (c : Char) : Prop :=
  d < 16 ∧ (c = Nat.digitChar d ∨ c = (Nat.digitChar d).toUpper)

inductive CodeUnit : Nat → List Char → Prop where
  | mk {d₃ d₂ d₁ d₀ c₃ c₂ c₁ c₀} (h₃ : HexDigit d₃ c₃) (h₂ : HexDigit d₂ c₂) (h₁ : HexDigit d₁ c₁)
    (h₀ : HexDigit d₀ c₀) :
    CodeUnit (16 * (16 * (16 * d₃ + d₂) + d₁) + d₀) [c₃, c₂, c₁, c₀]

def shortEscapes : List (Char × Char) :=
  [('"', '"'), ('\\', '\\'), ('/', '/'), ('b', '\x08'), ('f', '\x0c'), ('n', '\n'), ('r', '\r'),
    ('t', '\t')]

/-- A character inside quotes: as it is, by a short escape, by its code unit, or by the two code units
of a surrogate pair. -/
inductive Spelled : Char → List Char → Prop where
  | plain {c} (hcontrol : 32 ≤ c.toNat) (hquote : c ≠ '"') (hslash : c ≠ '\\') : Spelled c [c]
  | short {e c} (h : (e, c) ∈ shortEscapes) : Spelled c ['\\', e]
  | unit {c cs} (h : CodeUnit c.toNat cs) : Spelled c ('\\' :: 'u' :: cs)
  | pair {c high low} (hc : 0x10000 ≤ c.toNat)
    (hhigh : CodeUnit (0xD800 + (c.toNat - 0x10000) / 0x400) high)
    (hlow : CodeUnit (0xDC00 + (c.toNat - 0x10000) % 0x400) low) :
    Spelled c ('\\' :: 'u' :: (high ++ '\\' :: 'u' :: low))

inductive SpelledAll : List Char → List Char → Prop where
  | nil : SpelledAll [] []
  | cons {c s text rest} (hc : Spelled c text) (hs : SpelledAll s rest) :
    SpelledAll (c :: s) (text ++ rest)

def Quoted (s : String) (cs : List Char) : Prop :=
  ∃ inner, SpelledAll s.toList inner ∧ cs = '"' :: (inner ++ ['"'])

/-- The name of a member, with space around it. -/
def Name (k : String) (cs : List Char) : Prop :=
  ∃ a name b, Blank a ∧ Quoted k name ∧ Blank b ∧ cs = a ++ (name ++ b)

/-- The parts of a JSON text that values are found in. -/
inductive Phrase where
  | value (j : Json)
  | padded (j : Json)
  | items (vs : List Json)
  | members (ms : List (String × Json))

inductive Written : Phrase → List Char → Prop where
  | null : Written (.value .null) ['n', 'u', 'l', 'l']
  | true : Written (.value (.bool true)) ['t', 'r', 'u', 'e']
  | false : Written (.value (.bool false)) ['f', 'a', 'l', 's', 'e']
  | num {n cs} (h : n.Written cs) : Written (.value (.num n)) cs
  | str {s cs} (h : Quoted s cs) : Written (.value (.str s)) cs
  | arr {vs cs} (h : Written (.items vs) cs) : Written (.value (.arr vs)) ('[' :: (cs ++ [']']))
  | obj {ms cs} (h : Written (.members ms) cs) :
    Written (.value (.obj ms)) ('\x7b' :: (cs ++ ['\x7d']))
  | padded {j a cs b} (ha : Blank a) (h : Written (.value j) cs) (hb : Blank b) :
    Written (.padded j) (a ++ (cs ++ b))
  | noItem {cs} (h : Blank cs) : Written (.items []) cs
  | lastItem {v cs} (h : Written (.padded v) cs) : Written (.items [v]) cs
  | item {v w rest cs tail} (h : Written (.padded v) cs) (ht : Written (.items (w :: rest)) tail) :
    Written (.items (v :: w :: rest)) (cs ++ ',' :: tail)
  | noMember {cs} (h : Blank cs) : Written (.members []) cs
  | lastMember {k v name cs} (hk : Name k name) (h : Written (.padded v) cs) :
    Written (.members [(k, v)]) (name ++ ':' :: cs)
  | member {k v m rest name cs tail} (hk : Name k name) (h : Written (.padded v) cs)
    (ht : Written (.members (m :: rest)) tail) :
    Written (.members ((k, v) :: m :: rest)) (name ++ ':' :: (cs ++ ',' :: tail))

/-- Arrays and objects nest no deeper than so much, and no number is past the largest double. -/
inductive Readable : Nat → Json → Prop where
  | null {depth} : Readable depth .null
  | bool {depth b} : Readable depth (.bool b)
  | num {depth n} (h : n.double?.isSome = true) : Readable depth (.num n)
  | str {depth s} : Readable depth (.str s)
  | arr {depth vs} (h : ∀ v ∈ vs, Readable depth v) : Readable (depth + 1) (.arr vs)
  | obj {depth ms} (h : ∀ m ∈ ms, Readable depth m.2) : Readable (depth + 1) (.obj ms)

/-! ### Texts without space and escapes -/

theorem blank_nil : Blank [] := by simp [Blank]

theorem Written.tight {j : Json} {cs : List Char} (h : Written (.value j) cs) :
    Written (.padded j) cs := by
  simpa using Written.padded blank_nil h blank_nil

theorem spelledAll_self {s : List Char} (h : ∀ c ∈ s, 32 ≤ c.toNat ∧ c ≠ '"' ∧ c ≠ '\\') :
    SpelledAll s s := by
  induction s with
  | nil => exact .nil
  | cons c s ih =>
    obtain ⟨hcontrol, hquote, hslash⟩ := h c List.mem_cons_self
    exact .cons (.plain hcontrol hquote hslash) (ih fun c hc => h c (List.mem_cons_of_mem _ hc))

theorem quoted_self {s : String} (h : ∀ c ∈ s.toList, 32 ≤ c.toNat ∧ c ≠ '"' ∧ c ≠ '\\') :
    Quoted s ('"' :: (s.toList ++ ['"'])) :=
  ⟨_, spelledAll_self h, rfl⟩

theorem name_tight {k : String} {cs : List Char} (h : Quoted k cs) : Name k cs :=
  ⟨[], cs, [], blank_nil, h, blank_nil, by simp⟩

end Json
end Narrative
