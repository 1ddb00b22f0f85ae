import Narrative.Proofs.Json.Integers
import Narrative.Proofs.Json.Reading

/-! The compact text of a value is one of the texts that the grammar gives it: digits have no zero in
front, and every escape is one that stands for its character. -/
namespace Narrative

/-! ### Numerals -/

namespace Digits

theorem ofNat_of_lt {n : Nat} (h : n < 10) : ofNat n = [n] := by
  rw [ofNat, Nat.toDigits_of_lt_base h, List.map_singleton, ofChar_digitChar h]

theorem ofNat_of_le {n : Nat} (h : 10 ≤ n) : ofNat n = ofNat (n / 10) ++ [n % 10] := by
  have hlast : n % 10 < 10 := Nat.mod_lt n (by decide)
  rw [ofNat, Nat.toDigits_of_base_le (by decide) h, List.map_append, List.map_singleton,
    ofChar_digitChar hlast, ofNat]

theorem exists_digitChar {c : Char} (h : c.isDigit = true) : ∃ d < 10, c = Nat.digitChar d := by
  have hzero : '0'.toNat = 48 := rfl
  have hnine : '9'.toNat = 57 := rfl
  have hrange := Char.isDigit_iff_toNat.mp h
  have hd : c.toNat - 48 < 10 := by omega
  refine ⟨c.toNat - 48, hd, Char.toNat_inj.mp ?_⟩
  rw [Nat.toNat_digitChar_of_lt_ten hd]
  omega

theorem exists_digitChar_of_mem {n : Nat} {c : Char} (h : c ∈ Nat.toDigits 10 n) :
    ∃ d < 10, c = Nat.digitChar d :=
  exists_digitChar (Nat.isDigit_of_mem_toDigits (by decide) (by decide) h)

theorem digitList_ofNat (n : Nat) : Numeral.DigitList (ofNat n) := by
  refine ⟨by simp [ofNat, Nat.toDigits_ne_nil], fun d hd => ?_⟩
  obtain ⟨c, hc, rfl⟩ := List.mem_map.mp hd
  obtain ⟨e, he, rfl⟩ := exists_digitChar_of_mem hc
  rwa [ofChar_digitChar he]

theorem map_digitChar_ofNat (n : Nat) : (ofNat n).map Nat.digitChar = Nat.toDigits 10 n := by
  rw [ofNat, List.map_map]
  refine (List.map_congr_left fun c hc => ?_).trans (List.map_id _)
  obtain ⟨d, hd, rfl⟩ := exists_digitChar_of_mem hc
  exact congrArg Nat.digitChar (ofChar_digitChar hd)

/-- The first digit is zero only for zero itself. -/
theorem head?_ofNat (n : Nat) : ofNat n = [0] ∨ (ofNat n).head? ≠ some 0 := by
  by_cases hzero : n = 0
  · exact .inl (by rw [hzero, ofNat_of_lt (by decide)])
  refine .inr ?_
  induction n using Nat.strongRecOn with
  | _ n ih =>
    by_cases hn : n < 10
    · rw [ofNat_of_lt hn]
      simpa using hzero
    · have hfront := ih (n / 10) (by omega) (by omega)
      obtain ⟨d, ds, hds⟩ := List.exists_cons_of_ne_nil (digitList_ofNat (n / 10)).1
      rw [ofNat_of_le (Nat.le_of_not_lt hn), hds]
      simpa [hds] using hfront

end Digits

namespace Numeral

theorem wellFormed_ofInt (n : Int) : (ofInt n).WellFormed :=
  ⟨Digits.digitList_ofNat _, Digits.head?_ofNat _, by simp [ofInt]⟩

theorem exponentText_chars (e : Int) :
    ExponentText (some e) ('e' :: (if e < 0 then ['-'] else []) ++ Nat.toDigits 10 e.natAbs) := by
  have hdigits := Digits.digitList_ofNat e.natAbs
  have hvalue := Digits.value_ofNat e.natAbs
  have hchars := Digits.map_digitChar_ofNat e.natAbs
  by_cases he : e < 0
  · have htext : ExponentText _ ('e' :: '-' :: _) := .minus (.inl rfl) hdigits
    have habs : -(e.natAbs : Int) = e := by omega
    rw [hvalue, hchars, habs] at htext
    simpa [he] using htext
  · have htext : ExponentText _ ('e' :: _) := .plain (.inl rfl) hdigits
    have habs : (e.natAbs : Int) = e := by omega
    rw [hvalue, hchars, habs] at htext
    simpa [he] using htext

theorem written_chars {n : Numeral} (h : n.WellFormed) : n.Written n.chars := by
  refine ⟨h, _, ?_, (List.append_assoc _ _ _).trans (List.append_assoc _ _ _)⟩
  cases n.exponent with
  | none => exact .absent
  | some e => exact exponentText_chars e

end Numeral

/-! ### Strings -/

namespace Json

theorem hexDigit_digitChar {d : Nat} (h : d < 16) : HexDigit d (Nat.digitChar d) := ⟨h, .inl rfl⟩

theorem eq_ofNat_of_toNat {c : Char} {n : Nat} (h : c.toNat = n) : c = Char.ofNat n := by
  rw [← h, Char.ofNat_toNat]

theorem spelled_escape (c : Char) : Spelled c (escape c) := by
  unfold escape
  split_ifs with hquote hslash hnewline hreturn htab hback hfeed hcontrol
  · exact .short (by simp [shortEscapes, hquote])
  · exact .short (by simp [shortEscapes, hslash])
  · exact .short (by simp [shortEscapes, hnewline])
  · exact .short (by simp [shortEscapes, hreturn])
  · exact .short (by simp [shortEscapes, htab])
  · exact .short (by simp [shortEscapes, eq_ofNat_of_toNat hback])
  · exact .short (by simp [shortEscapes, eq_ofNat_of_toNat hfeed])
  · have hzero : HexDigit 0 '0' := hexDigit_digitChar (by decide)
    have hunit := CodeUnit.mk hzero hzero (hexDigit_digitChar (d := c.toNat / 16) (by omega))
      (hexDigit_digitChar (d := c.toNat % 16) (by omega))
    have hvalue : 16 * (16 * (16 * 0 + 0) + c.toNat / 16) + c.toNat % 16 = c.toNat := by omega
    rw [hvalue] at hunit
    exact .unit hunit
  · exact .plain (Nat.le_of_not_lt hcontrol) hquote hslash

theorem spelledAll_escape (s : List Char) : SpelledAll s (s.flatMap escape) := by
  induction s with
  | nil => exact .nil
  | cons c s ih => exact .cons (spelled_escape c) ih

theorem quoted_quoted (s : String) : Quoted s (quoted s) := ⟨_, spelledAll_escape s.toList, rfl⟩

/-! ### Values -/

theorem written_ofNat (n : Nat) : Written (.value (.ofNat n)) (Numeral.ofNat n).chars :=
  .num (Numeral.written_chars (Numeral.wellFormed_ofInt n))

theorem written_itemsChars {vs : List Json} (h : ∀ v ∈ vs, Written (.value v) v.chars) :
    Written (.items vs) (itemsChars vs) := by
  induction vs with
  | nil => exact .noItem blank_nil
  | cons v rest ih =>
    obtain ⟨hv, hrest⟩ := List.forall_mem_cons.mp h
    cases rest with
    | nil => exact .lastItem hv.tight
    | cons w rest => exact .item hv.tight (ih hrest)

theorem written_membersChars {ms : List (String × Json)}
    (h : ∀ m ∈ ms, Written (.value m.2) m.2.chars) : Written (.members ms) (membersChars ms) := by
  induction ms with
  | nil => exact .noMember blank_nil
  | cons m rest ih =>
    obtain ⟨k, v⟩ := m
    obtain ⟨hv, hrest⟩ := List.forall_mem_cons.mp h
    have hname := name_tight (quoted_quoted k)
    cases rest with
    | nil => exact .lastMember hname hv.tight
    | cons m rest =>
      rw [membersChars, List.append_assoc]
      exact .member hname hv.tight (ih hrest)

theorem written_chars (j : Json) :
    (∀ n, .num n ∈ j.tokens → n.WellFormed) → Written (.value j) j.chars := by
  induction j using forall_of_parts with
  | null => exact fun _ => .null
  | bool b => cases b <;> exact fun _ => by constructor
  | num n => exact fun h => .num (Numeral.written_chars (h n (by simp [tokens])))
  | str s => exact fun _ => .str (quoted_quoted s)
  | arr vs ih =>
    intro h
    refine .arr (written_itemsChars fun v hv => ih v hv fun n hn => h n ?_)
    simpa [tokens, num_mem_itemsTokens] using ⟨v, hv, hn⟩
  | obj ms ih =>
    intro h
    refine .obj (written_membersChars fun m hm => ih m hm fun n hn => h n ?_)
    simpa [tokens, num_mem_membersTokens] using ⟨m.1, m.2, hm, hn⟩

theorem written_text {j : Json} (h : ∀ n, .num n ∈ j.tokens → n.WellFormed) :
    Written (.padded j) j.text.toList := by
  rw [text, String.toList_ofList]
  exact (written_chars j h).tight

end Json

end Narrative
