import Narrative.Value

/-! The texts of values. The characters of a text that are no digits tell what kind of value it is, the
digits tell its number, and so no two values have one text. Floats are left out: their texts have
other forms. -/
namespace Narrative
namespace Value

def isFloat : Value → Bool
  | .float _ => true
  | _ => false

/-- What is left of the text of a value when the digits are taken away. -/
def label : Value → String
  | .none => "none"
  | .int n => if n.toInt < 0 then "-" else ""
  | .float _ => ""
  | .bool b => if b then "true" else "false"
  | .str _ => "str#"
  | .divert _ => "-> "
  | .frame r => r.kind.text ++ "(ret )"

/-- The number in the text of a value, its sign left out. -/
def number? : Value → Option Nat
  | .int n => some n.toInt.natAbs
  | .str id => some id.index.toNat
  | .divert t => some t.toNat
  | .frame r => some r.returnTo.toNat
  | .none | .float _ | .bool _ => Option.none

/-- The characters are so many others around the digits of a number, if there is one. -/
def Parts (cs label : List Char) (number : Option Nat) : Prop :=
  cs.filter (!·.isDigit) = label ∧ cs.filter (·.isDigit) = (number.map (Nat.toDigits 10)).getD []

theorem parts_plain {cs : List Char} (h : ∀ c ∈ cs, c.isDigit = false) : Parts cs cs Option.none := by
  constructor
  · exact List.filter_eq_self.mpr fun c hc => by simp [h c hc]
  · exact List.filter_eq_nil_iff.mpr fun c hc => by simp [h c hc]

theorem parts_number (before after : List Char) (n : Nat) (hb : ∀ c ∈ before, c.isDigit = false)
    (ha : ∀ c ∈ after, c.isDigit = false) :
    Parts (before ++ (Nat.toDigits 10 n ++ after)) (before ++ after) (some n) := by
  have hdigits : ∀ c ∈ Nat.toDigits 10 n, c.isDigit = true :=
    fun c hc => Nat.isDigit_of_mem_toDigits (by decide) (by decide) hc
  obtain ⟨hbl, hbd⟩ := parts_plain hb
  obtain ⟨hal, had⟩ := parts_plain ha
  constructor
  · rw [List.filter_append, List.filter_append, hbl, hal,
      List.filter_eq_nil_iff.mpr fun c hc => by simp [hdigits c hc], List.nil_append]
  · rw [List.filter_append, List.filter_append, hbd, had, List.filter_eq_self.mpr hdigits]
    simp

theorem parts_int (n : Int32) : Parts (text (.int n)).toList (label (.int n)).toList
    (number? (.int n)) := by
  have htext : text (.int n) = n.toInt.repr := rfl
  rw [htext, Int.repr_eq_if]
  by_cases hn : 0 ≤ n.toInt
  · have habs : n.toInt.toNat = n.toInt.natAbs := by omega
    rw [if_pos hn, habs, Nat.toList_repr, label, if_neg (by omega)]
    simpa [number?] using parts_number [] [] n.toInt.natAbs (by simp) (by simp)
  · have habs : (-n.toInt).toNat = n.toInt.natAbs := by omega
    rw [if_neg hn, habs, String.toList_append, Nat.toList_repr, label, if_pos (by omega)]
    simpa [number?] using parts_number ['-'] [] n.toInt.natAbs (by simp) (by simp)

theorem parts_text {v : Value} (h : v.isFloat = false) :
    Parts v.text.toList v.label.toList v.number? := by
  cases v with
  | none => exact parts_plain (by simp [text])
  | int n => exact parts_int n
  | float x => cases h
  | bool b => cases b <;> exact parts_plain (by simp [text])
  | str id =>
    have htext : text (.str id) = "str#" ++ id.index.toNat.repr := rfl
    rw [htext, String.toList_append, Nat.toList_repr]
    simpa [label, number?] using parts_number "str#".toList [] id.index.toNat (by simp) (by simp)
  | divert t =>
    have htext : text (.divert t) = "-> " ++ t.toNat.repr := rfl
    rw [htext, String.toList_append, Nat.toList_repr]
    simpa [label, number?] using parts_number "-> ".toList [] t.toNat (by simp) (by simp)
  | frame r =>
    have hkind : ∀ c ∈ (r.kind.text ++ "(ret ").toList, c.isDigit = false := by
      cases r.kind <;> simp [FrameKind.text]
    have htext : text (.frame r) = r.kind.text ++ "(ret " ++ r.returnTo.toNat.repr ++ ")" := rfl
    rw [htext, String.toList_append, String.toList_append, Nat.toList_repr, List.append_assoc]
    simpa [label, number?] using parts_number _ ")".toList r.returnTo.toNat hkind (by simp)

theorem not_mem_text {v : Value} (h : v.isFloat = false) {c : Char} (hdigit : c.isDigit = false)
    (hc : c ∉ v.label.toList) : c ∉ v.text.toList := by
  intro hmem
  refine hc ?_
  rw [← (parts_text h).1]
  exact List.mem_filter.mpr ⟨hmem, by simp [hdigit]⟩

/-- What stands between items, and between a name and its value, stands in no text. -/
theorem label_unmarked (v : Value) : ',' ∉ v.label.toList ∧ '=' ∉ v.label.toList := by
  cases v with
  | int n =>
    rw [label]
    split <;> decide
  | bool b => cases b <;> decide
  | frame r =>
    obtain ⟨ret, kind⟩ := r
    cases kind <;> simp [label, FrameKind.text]
  | none | float | str | divert => simp [label]

/-- The value with a label and a number. -/
def ofParts? : String → Option Nat → Option Value
  | "none", .none => some .none
  | "true", .none => some (.bool true)
  | "false", .none => some (.bool false)
  | "", some n => some (.int (.ofInt n))
  | "-", some n => some (.int (.ofInt (-n)))
  | "str#", some n => some (.str ⟨.ofNat n⟩)
  | "-> ", some n => some (.divert (.ofNat n))
  | "tunnel(ret )", some n => some (.frame ⟨.ofNat n, .tunnel⟩)
  | "function(ret )", some n => some (.frame ⟨.ofNat n, .function⟩)
  | _, _ => Option.none

theorem ofParts?_label {v : Value} (h : v.isFloat = false) : ofParts? v.label v.number? = some v := by
  cases v with
  | none => rfl
  | int n =>
    by_cases hn : n.toInt < 0
    · have habs : -(n.toInt.natAbs : Int) = n.toInt := by omega
      rw [label, if_pos hn, number?, ofParts?, habs, Int32.ofInt_toInt]
    · have habs : (n.toInt.natAbs : Int) = n.toInt := by omega
      rw [label, if_neg hn, number?, ofParts?, habs, Int32.ofInt_toInt]
  | float x => cases h
  | bool b => cases b <;> rfl
  | str id => simp [label, number?, ofParts?]
  | divert t => simp [label, number?, ofParts?]
  | frame r =>
    obtain ⟨ret, kind⟩ := r
    cases kind <;> simp [label, number?, ofParts?, FrameKind.text]

theorem toDigits_inj {m n : Nat} (h : Nat.toDigits 10 m = Nat.toDigits 10 n) : m = n := by
  rw [← @Nat.ofDigitChars_ten_toDigits m, h, Nat.ofDigitChars_ten_toDigits]

theorem Parts.unique {cs a b : List Char} {m n : Option Nat} (h : Parts cs a m) (h' : Parts cs b n) :
    a = b ∧ m = n := by
  have hdigits := h.2.symm.trans h'.2
  refine ⟨h.1.symm.trans h'.1, ?_⟩
  cases m with
  | none =>
    cases n with
    | none => rfl
    | some n => exact absurd hdigits.symm Nat.toDigits_ne_nil
  | some m =>
    cases n with
    | none => exact absurd hdigits Nat.toDigits_ne_nil
    | some n => rw [toDigits_inj hdigits]

theorem text_ne_empty {v : Value} (h : v.isFloat = false) : v.text ≠ "" := by
  intro hempty
  have hparts := parts_text h
  rw [hempty] at hparts
  have hnothing : Parts "".toList [] Option.none := ⟨rfl, rfl⟩
  obtain ⟨hlabel, hnumber⟩ := hparts.unique hnothing
  have hread := ofParts?_label h
  rw [String.toList_eq_nil_iff.mp hlabel, hnumber] at hread
  cases hread

theorem text_inj {v w : Value} (hv : v.isFloat = false) (hw : w.isFloat = false) :
    v.text = w.text ↔ v = w := by
  refine ⟨fun htext => ?_, congrArg text⟩
  have hparts := parts_text hv
  rw [htext] at hparts
  obtain ⟨hlabel, hnumber⟩ := hparts.unique (parts_text hw)
  have hread := ofParts?_label hv
  rw [String.toList_inj.mp hlabel, hnumber, ofParts?_label hw] at hread
  exact (Option.some.inj hread).symm

end Value
end Narrative
