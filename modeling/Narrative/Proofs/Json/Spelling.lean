import Mathlib.Tactic.IntervalCases
import Narrative.Json.Token
import Narrative.Proofs.Json.Grammar

/-! The scanner on the characters of a single token: whatever the spelling, it finds the numeral or the
string that is written, and stops where the token does. -/
namespace Narrative

/-! ### Numerals -/

namespace Digits

theorem ofChar_digitChar {d : Nat} (h : d < 10) : ofChar (Nat.digitChar d) = d := by
  interval_cases d <;> rfl

theorem map_ofChar {ds : List Nat} (h : ∀ d ∈ ds, d < 10) :
    (ds.map Nat.digitChar).map ofChar = ds := by
  rw [List.map_map]
  refine (List.map_congr_left fun d hd => ?_).trans ds.map_id
  exact ofChar_digitChar (h d hd)

theorem isDigit_of_mem {ds : List Nat} (h : ∀ d ∈ ds, d < 10) :
    ∀ c ∈ ds.map Nat.digitChar, c.isDigit = true := by
  intro c hc
  obtain ⟨d, hd, rfl⟩ := List.mem_map.mp hc
  rw [Nat.isDigit_digitChar, decide_eq_true (h d hd)]

section DigitList
variable {ds : List Nat} (hds : Numeral.DigitList ds)
include hds

theorem ofChars?_of_digitList : ofChars? (ds.map Nat.digitChar) = some ds := by
  have hne : ds.map Nat.digitChar ≠ [] := by simpa using hds.1
  have hall : (ds.map Nat.digitChar).all Char.isDigit = true :=
    List.all_eq_true.mpr (isDigit_of_mem hds.2)
  rw [ofChars?, if_pos ⟨hne, hall⟩, map_ofChar hds.2]

theorem signed?_of_digitList : signed? (ds.map Nat.digitChar) = some (value ds : Int) := by
  have hread := ofChars?_of_digitList hds
  obtain ⟨d, rest, rfl⟩ := List.exists_cons_of_ne_nil hds.1
  have hd := hds.2 d List.mem_cons_self
  have hplus : Nat.digitChar d ≠ '+' := by interval_cases d <;> decide
  have hminus : Nat.digitChar d ≠ '-' := by interval_cases d <;> decide
  rw [List.map_cons] at hread ⊢
  simp [signed?, hplus, hminus, hread]

theorem wholeDigits?_of_digitList (hzero : ds = [0] ∨ ds.head? ≠ some 0) :
    Numeral.wholeDigits? (ds.map Nat.digitChar) = some ds := by
  have hread := map_ofChar hds.2
  obtain ⟨d, rest, rfl⟩ := List.exists_cons_of_ne_nil hds.1
  rcases hzero with hzero | hzero
  · cases hzero
    rfl
  · have hd := hds.2 d List.mem_cons_self
    have hd' : d ≠ 0 := by simpa using hzero
    have hne : Nat.digitChar d ≠ '0' := by interval_cases d <;> first | contradiction | decide
    rw [List.map_cons] at hread ⊢
    simp [Numeral.wholeDigits?, hne, ← hread]

end DigitList

theorem exponent?_of_text {e : Option Int} {cs : List Char} (h : Numeral.ExponentText e cs) :
    exponent? cs = some e := by
  cases h with
  | absent => rfl
  | plain hmark hds => simp [exponent?, hmark, signed?_of_digitList hds]
  | plus hmark hds => simp [exponent?, hmark, signed?, ofChars?_of_digitList hds]
  | minus hmark hds => simp [exponent?, hmark, signed?, ofChars?_of_digitList hds]

/-- The digits at the front are all of the given ones if none follows them. -/
theorem span_digits {ds : List Nat} (hds : ∀ d ∈ ds, d < 10) {rest : List Char}
    (hrest : ∀ c ∈ rest.head?, c.isDigit = false) :
    (ds.map Nat.digitChar ++ rest).takeWhile Char.isDigit = ds.map Nat.digitChar ∧
      (ds.map Nat.digitChar ++ rest).dropWhile Char.isDigit = rest := by
  rw [List.takeWhile_append_of_pos (isDigit_of_mem hds),
    List.dropWhile_append_of_pos (isDigit_of_mem hds)]
  cases rest with
  | nil => simp
  | cons c rest =>
    have hc := hrest c rfl
    simp [hc]

end Digits

namespace Numeral
variable {n : Numeral} {cs : List Char}

theorem ExponentText.head_not_digit {e : Option Int} (h : ExponentText e cs) :
    ∀ c ∈ cs.head?, c.isDigit = false := by
  cases h with
  | absent => simp
  | plain hmark | plus hmark | minus hmark => rcases hmark with rfl | rfl <;> simp

theorem pointChars_of_fraction {d : Nat} {ds : List Nat} (h : n.fraction = d :: ds) :
    n.pointChars = '.' :: (d :: ds).map Nat.digitChar := by
  rw [pointChars, if_neg (by simp [h]), h]

theorem ofUnsigned?_of_parts (hn : n.WellFormed) {tail : List Char}
    (htail : ExponentText n.exponent tail) :
    ofUnsigned? n.negative (n.whole.map Nat.digitChar ++ (n.pointChars ++ tail)) = some n := by
  have hexp := Digits.exponent?_of_text htail
  have hwhole := Digits.wholeDigits?_of_digitList hn.whole hn.noLeadingZero
  cases hfraction : n.fraction with
  | nil =>
    have hpoint : n.pointChars = [] := if_pos hfraction
    obtain ⟨htake, hdrop⟩ := Digits.span_digits hn.whole.2 htail.head_not_digit
    have hfirst : ∀ rest, tail ≠ '.' :: rest := by
      rintro rest rfl
      simp [Digits.exponent?] at hexp
    rw [hpoint, List.nil_append, ofUnsigned?, htake, hdrop, hwhole]
    simp only [Option.bind_eq_bind, Option.bind_some]
    rw [hexp]
    simp [← hfraction]
  | cons d ds =>
    have hfrac : DigitList (d :: ds) := ⟨by simp, hfraction ▸ hn.fraction⟩
    have hpoint : ∀ c ∈ ('.' :: ((d :: ds).map Nat.digitChar ++ tail)).head?, c.isDigit = false := by
      simp
    obtain ⟨htake, hdrop⟩ := Digits.span_digits hn.whole.2 hpoint
    obtain ⟨htake', hdrop'⟩ := Digits.span_digits hfrac.2 htail.head_not_digit
    rw [pointChars_of_fraction hfraction, List.cons_append, ofUnsigned?, htake, hdrop, hwhole]
    simp only [Option.bind_eq_bind, Option.bind_some]
    rw [htake', hdrop', Digits.ofChars?_of_digitList hfrac, hexp]
    simp [← hfraction]

theorem ofChars?_of_written (h : n.Written cs) : ofChars? cs = some n := by
  obtain ⟨hn, tail, htail, rfl⟩ := h
  have hread := ofUnsigned?_of_parts hn htail
  cases hneg : n.negative with
  | true =>
    rw [hneg] at hread
    simpa [signChars, hneg, ofChars?] using hread
  | false =>
    rw [hneg] at hread
    obtain ⟨d, rest, hwhole⟩ := List.exists_cons_of_ne_nil hn.whole.1
    have hd := hn.whole.2 d (by simp [hwhole])
    have hminus : Nat.digitChar d ≠ '-' := by interval_cases d <;> decide
    rw [hwhole] at hread
    simpa [signChars, hneg, hwhole, ofChars?, hminus] using hread

end Numeral

namespace Scanner
variable {ts : List Token} {rest : List Char}

/-- The tokens of a text of which the scanner has read the beginning. -/
def tokensFrom (s : Scanner) (cs : List Char) : Option (List Token) := do
  (← cs.foldlM step s).finish

theorem tokensFrom_cons (s : Scanner) (c : Char) (cs : List Char) :
    s.tokensFrom (c :: cs) = (step s c).bind fun s' => s'.tokensFrom cs := by
  simp only [tokensFrom, List.foldlM_cons, Option.bind_eq_bind, Option.bind_assoc]

theorem tokensFrom_step {s s' : Scanner} {c : Char} (h : step s c = some s') (cs : List Char) :
    s.tokensFrom (c :: cs) = s'.tokensFrom cs := by
  rw [tokensFrom_cons, h, Option.bind_some]

/-- The character neither goes on with a numeral nor with a word. -/
def Delimits (c : Char) : Prop := isNumberChar c = false ∧ isWordChar c = false

/-- A token that stands before the text ends there. -/
def Delimited (cs : List Char) : Prop := ∀ c ∈ cs.head?, Delimits c

theorem tokensFrom_numberEnd (hrest : Delimited rest) (cs : List Char) :
    tokensFrom ⟨ts, .number cs⟩ rest =
      (Token.number? cs.reverse).bind fun t => tokensFrom ⟨t :: ts, .between⟩ rest := by
  cases rest with
  | nil => cases h : Token.number? cs.reverse <;> simp [tokensFrom, finish, h]
  | cons c rest =>
    have hc := (hrest c rfl).1
    simp only [tokensFrom_cons]
    cases h : Token.number? cs.reverse <;> simp [step, hc, h]

theorem tokensFrom_wordEnd (hrest : Delimited rest) {cs : List Char} {t : Token}
    (h : Token.word? cs.reverse = some t) :
    tokensFrom ⟨ts, .word cs⟩ rest = tokensFrom ⟨t :: ts, .between⟩ rest := by
  cases rest with
  | nil => simp [tokensFrom, finish, h]
  | cons c rest =>
    have hc := (hrest c rfl).2
    rw [tokensFrom_cons, tokensFrom_cons]
    simp [step, hc, h]

theorem tokensFrom_numberChars {cs : List Char} (h : ∀ c ∈ cs, isNumberChar c = true)
    (read : List Char) :
    tokensFrom ⟨ts, .number read⟩ (cs ++ rest) =
      tokensFrom ⟨ts, .number (cs.reverse ++ read)⟩ rest := by
  induction cs generalizing read with
  | nil => rfl
  | cons c cs ih =>
    have hc := h c List.mem_cons_self
    have hstep : step ⟨ts, .number read⟩ c = some ⟨ts, .number (c :: read)⟩ := by simp [step, hc]
    rw [List.cons_append, tokensFrom_step hstep, ih fun c hc => h c (List.mem_cons_of_mem _ hc)]
    simp

theorem isNumberChar_digits {ds : List Nat} (h : ∀ d ∈ ds, d < 10) :
    ∀ c ∈ ds.map Nat.digitChar, isNumberChar c = true := by
  intro c hc
  simp [isNumberChar, Digits.isDigit_of_mem h c hc]

theorem isNumberChar_exponent {e : Option Int} {cs : List Char} (h : Numeral.ExponentText e cs) :
    ∀ c ∈ cs, isNumberChar c = true := by
  have hmarks : ∀ mark : Char, mark = 'e' ∨ mark = 'E' → isNumberChar mark = true := by
    rintro mark (rfl | rfl) <;> rfl
  cases h with
  | absent => simp
  | plain hmark hds => simpa [hmarks _ hmark] using isNumberChar_digits hds.2
  | plus hmark hds =>
    have hsign : isNumberChar '+' = true := rfl
    simpa [hmarks _ hmark, hsign] using isNumberChar_digits hds.2
  | minus hmark hds =>
    have hsign : isNumberChar '-' = true := rfl
    simpa [hmarks _ hmark, hsign] using isNumberChar_digits hds.2

theorem isNumberChar_written {n : Numeral} {cs : List Char} (h : n.Written cs) :
    ∀ c ∈ cs, isNumberChar c = true := by
  obtain ⟨hn, tail, htail, rfl⟩ := h
  have hsign : ∀ c ∈ n.signChars, isNumberChar c = true := by
    cases hneg : n.negative with
    | true =>
      rw [Numeral.signChars, if_pos hneg]
      intro c hc
      rw [List.mem_singleton.mp hc]
      rfl
    | false => simp [Numeral.signChars, hneg]
  have hpoint : ∀ c ∈ n.pointChars, isNumberChar c = true := by
    cases hfraction : n.fraction with
    | nil => simp [Numeral.pointChars, hfraction]
    | cons d ds =>
      rw [Numeral.pointChars_of_fraction hfraction]
      intro c hc
      rcases List.mem_cons.mp hc with rfl | hc
      · rfl
      · exact isNumberChar_digits (hfraction ▸ hn.fraction) c hc
  intro c hc
  simp only [List.mem_append] at hc
  rcases hc with hc | hc | hc | hc
  · exact hsign c hc
  · exact isNumberChar_digits hn.whole.2 c hc
  · exact hpoint c hc
  · exact isNumberChar_exponent htail c hc

theorem step_numeral {n : Numeral} {cs : List Char} (h : n.Written cs) (ts : List Token) :
    ∃ c cs', cs = c :: cs' ∧ step ⟨ts, .between⟩ c = some ⟨ts, .number [c]⟩ := by
  obtain ⟨hn, tail, -, rfl⟩ := h
  cases hneg : n.negative with
  | true => exact ⟨'-', _, by simp [Numeral.signChars, hneg]; rfl, rfl⟩
  | false =>
    obtain ⟨d, ds, hwhole⟩ := List.exists_cons_of_ne_nil hn.whole.1
    have hd := hn.whole.2 d (by simp [hwhole])
    refine ⟨Nat.digitChar d, _, by simp [Numeral.signChars, hneg, hwhole]; rfl, ?_⟩
    interval_cases d <;> rfl

/-- A numeral is a token of its own, unless it is past the largest double. -/
theorem tokensFrom_numeral {n : Numeral} {cs : List Char} (h : n.Written cs)
    (hrest : Delimited rest) :
    tokensFrom ⟨ts, .between⟩ (cs ++ rest) =
      if n.double?.isSome then tokensFrom ⟨.num n :: ts, .between⟩ rest else none := by
  have hread := Numeral.ofChars?_of_written h
  have hchars := isNumberChar_written h
  obtain ⟨c, cs, rfl, hstart⟩ := step_numeral h ts
  have hback : (cs.reverse ++ [c]).reverse = c :: cs := by simp
  rw [List.cons_append, tokensFrom_step hstart,
    tokensFrom_numberChars fun c hc => hchars c (List.mem_cons_of_mem _ hc),
    tokensFrom_numberEnd hrest, hback, Token.number?, hread]
  cases hdouble : n.double? <;> simp [hdouble]

/-! ### Strings -/

theorem hexDigit?_of_hexDigit {d : Nat} {c : Char} (h : Json.HexDigit d c) :
    hexDigit? c = some d := by
  obtain ⟨hd, rfl | rfl⟩ := h
  · interval_cases d <;> rfl
  · interval_cases d <;> rfl

section Strings
variable {read : List Char} {high : Option Nat}

theorem step_unit {d : Nat} {c : Char} (h : Json.HexDigit d c) (value : Nat) {count : Nat}
    (hcount : count ≠ 3) :
    step ⟨ts, .string read (.unit value count) high⟩ c =
      some ⟨ts, .string read (.unit (16 * value + d) (count + 1)) high⟩ := by
  simp [step, inString, hexDigit?_of_hexDigit h, hcount]

theorem tokensFrom_codeUnit {u : Nat} {text : List Char} (h : Json.CodeUnit u text) :
    tokensFrom ⟨ts, .string read (.unit 0 0) high⟩ (text ++ rest) =
      (finishUnit read high u).bind fun l => tokensFrom ⟨ts, l⟩ rest := by
  cases h with
  | mk h₃ h₂ h₁ h₀ =>
    simp only [List.cons_append, List.nil_append]
    rw [tokensFrom_step (step_unit h₃ 0 (by decide)), tokensFrom_step (step_unit h₂ _ (by decide)),
      tokensFrom_step (step_unit h₁ _ (by decide)), tokensFrom_cons]
    simp [step, inString, hexDigit?_of_hexDigit h₀, Option.bind_map]

/-- A code unit in full: the backslash, the letter and the digits. -/
theorem tokensFrom_escapedUnit {u : Nat} {text : List Char} (h : Json.CodeUnit u text) :
    tokensFrom ⟨ts, .string read .plain high⟩ ('\\' :: 'u' :: (text ++ rest)) =
      (finishUnit read high u).bind fun l => tokensFrom ⟨ts, l⟩ rest := by
  have hslash : step ⟨ts, .string read .plain high⟩ '\\' = some ⟨ts, .string read .escape high⟩ := by
    simp [step, inString]
  have hletter : step ⟨ts, .string read .escape high⟩ 'u' =
      some ⟨ts, .string read (.unit 0 0) high⟩ := by
    simp [step, inString]
  rw [tokensFrom_step hslash, tokensFrom_step hletter, tokensFrom_codeUnit h]

end Strings

theorem not_surrogate (c : Char) : c.toNat < 0xD800 ∨ 0xE000 ≤ c.toNat := by
  rcases c.valid with h | ⟨h, -⟩
  · exact .inl h
  · exact .inr h

theorem toNat_lt (c : Char) : c.toNat < 0x110000 := by
  rcases c.valid with h | ⟨-, h⟩
  · exact Nat.lt_trans h (by decide)
  · exact h

theorem finishUnit_alone (read : List Char) (c : Char) :
    finishUnit read none c.toNat = some (.string (c :: read) .plain none) := by
  have hc := not_surrogate c
  have hhigh : ¬ (0xD800 ≤ c.toNat ∧ c.toNat < 0xDC00) := by omega
  have hlow : ¬ (0xDC00 ≤ c.toNat ∧ c.toNat < 0xE000) := by omega
  rw [finishUnit, if_neg hhigh, if_neg hlow, Char.ofNat_toNat]

section Pair
variable {c : Char} (hc : 0x10000 ≤ c.toNat) (read : List Char)
include hc

theorem finishUnit_high :
    finishUnit read none (0xD800 + (c.toNat - 0x10000) / 0x400) =
      some (.string read .plain (some (0xD800 + (c.toNat - 0x10000) / 0x400))) := by
  have hlt := toNat_lt c
  have hdiv : (c.toNat - 0x10000) / 0x400 < 0x400 := by omega
  exact if_pos ⟨Nat.le_add_right _ _, by omega⟩

theorem finishUnit_low :
    finishUnit read (some (0xD800 + (c.toNat - 0x10000) / 0x400))
        (0xDC00 + (c.toNat - 0x10000) % 0x400) =
      some (.string (c :: read) .plain none) := by
  have hvalue : 0x10000 + (0xD800 + (c.toNat - 0x10000) / 0x400 - 0xD800) * 0x400 +
      (0xDC00 + (c.toNat - 0x10000) % 0x400 - 0xDC00) = c.toNat := by omega
  have hrange : 0xDC00 ≤ 0xDC00 + (c.toNat - 0x10000) % 0x400 ∧
      0xDC00 + (c.toNat - 0x10000) % 0x400 < 0xE000 := by omega
  rw [finishUnit, if_pos hrange, hvalue, Char.ofNat_toNat]

end Pair

/-- However a character is spelt, it is what the scanner adds to the string. -/
theorem tokensFrom_spelled {c : Char} {text : List Char} (h : Json.Spelled c text)
    (read : List Char) :
    tokensFrom ⟨ts, .string read .plain none⟩ (text ++ rest) =
      tokensFrom ⟨ts, .string (c :: read) .plain none⟩ rest := by
  cases h with
  | plain hcontrol hquote hslash =>
    refine tokensFrom_step ?_ rest
    simp [step, inString, hquote, hslash, Nat.not_lt_of_le hcontrol]
  | short h =>
    simp only [Json.shortEscapes, List.mem_cons, List.not_mem_nil, or_false, Prod.mk.injEq] at h
    rcases h with ⟨rfl, rfl⟩ | ⟨rfl, rfl⟩ | ⟨rfl, rfl⟩ | ⟨rfl, rfl⟩ | ⟨rfl, rfl⟩ | ⟨rfl, rfl⟩ |
      ⟨rfl, rfl⟩ | ⟨rfl, rfl⟩ <;> rfl
  | unit h =>
    rw [List.cons_append, List.cons_append, tokensFrom_escapedUnit h, finishUnit_alone]
    rfl
  | pair hc hhigh hlow =>
    rw [List.cons_append, List.cons_append, List.append_assoc, tokensFrom_escapedUnit hhigh,
      finishUnit_high hc, Option.bind_some, List.cons_append, List.cons_append,
      tokensFrom_escapedUnit hlow, finishUnit_low hc]
    rfl

theorem tokensFrom_spelledAll {s text : List Char} (h : Json.SpelledAll s text)
    (read : List Char) :
    tokensFrom ⟨ts, .string read .plain none⟩ (text ++ rest) =
      tokensFrom ⟨ts, .string (s.reverse ++ read) .plain none⟩ rest := by
  induction h generalizing read with
  | nil => rfl
  | cons hc _ ih =>
    rw [List.append_assoc, tokensFrom_spelled hc, ih]
    simp

theorem tokensFrom_quoted {s : String} {text : List Char} (h : Json.Quoted s text) :
    tokensFrom ⟨ts, .between⟩ (text ++ rest) = tokensFrom ⟨.str s :: ts, .between⟩ rest := by
  obtain ⟨inner, hinner, rfl⟩ := h
  have hopen : step ⟨ts, .between⟩ '"' = some ⟨ts, .string [] .plain none⟩ := rfl
  have hclose : step ⟨ts, .string (s.toList.reverse ++ []) .plain none⟩ '"' =
      some ⟨.str s :: ts, .between⟩ := by
    simp [step, inString, emit]
  rw [List.cons_append, tokensFrom_step hopen, List.append_assoc, tokensFrom_spelledAll hinner]
  exact tokensFrom_step hclose rest

end Scanner

end Narrative
