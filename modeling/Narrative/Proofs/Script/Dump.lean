import Narrative.Proofs.Value
import Narrative.Proofs.Context.Failure

/-! What a dump shows. No two entries have one text, no text holds the comma that stands between two, and
so a line that shows a stack is the line of no other stack. -/
namespace Narrative

/-! ### Texts of entries -/

namespace Entry

theorem length_hexDigits (width n : Nat) : (hexDigits width n).length = width := by
  induction width generalizing n with
  | zero => rfl
  | succ width ih => simp [hexDigits, ih]

theorem mem_hexDigits {width n : Nat} {c : Char} (h : c ∈ hexDigits width n) :
    ∃ d < 16, c = Nat.digitChar d := by
  induction width generalizing n with
  | zero => cases h
  | succ width ih =>
    rcases List.mem_append.mp h with h | h
    · exact ih h
    · exact ⟨n % 16, Nat.mod_lt n (by decide), List.mem_singleton.mp h⟩

theorem digitChar_inj {a b : Nat} (ha : a < 16) (hb : b < 16)
    (h : Nat.digitChar a = Nat.digitChar b) : a = b := by
  have hall : ∀ a < 16, ∀ b < 16, Nat.digitChar a = Nat.digitChar b → a = b := by decide
  exact hall a ha b hb h

/-- Digits of a fixed number tell all numbers that have no more of them apart. -/
theorem hexDigits_inj {width m n : Nat} (hm : m < Nat.pow 16 width) (hn : n < Nat.pow 16 width)
    (h : hexDigits width m = hexDigits width n) : m = n := by
  induction width generalizing m n with
  | zero =>
    have hone : Nat.pow 16 0 = 1 := rfl
    omega
  | succ width ih =>
    have hpow : Nat.pow 16 (width + 1) = Nat.pow 16 width * 16 := rfl
    obtain ⟨hhigh, hlow⟩ := List.append_inj h (by simp [length_hexDigits])
    have hdiv := ih (by omega) (by omega) hhigh
    have hmod := digitChar_inj (Nat.mod_lt m (by decide)) (Nat.mod_lt n (by decide))
      (List.singleton_inj.mp hlow)
    omega

theorem name_of_boundary {e : Entry} (h : e.isBoundary = true) : e.name = NameHash.invalid := by
  simpa [NameHash.isValid] using (Bool.and_eq_true_iff.mp h).1

theorem text_of_boundary {e : Entry} (h : e.isBoundary = true) : e.text = e.value.text := by
  rw [text, if_pos h]

theorem toList_text_of_variable {e : Entry} (h : e.isBoundary = false) :
    e.text.toList = '#' :: (hexDigits 8 e.name.bits.toNat ++ '=' :: e.value.text.toList) := by
  rw [text, if_neg (by simp [h])]
  simp

theorem comma_not_mem_text {e : Entry} (h : e.value.isFloat = false) : ',' ∉ e.text.toList := by
  have hvalue := Value.not_mem_text h rfl (Value.label_unmarked e.value).1
  cases hb : e.isBoundary with
  | true => rwa [text_of_boundary hb]
  | false =>
    have hhex : ',' ∉ hexDigits 8 e.name.bits.toNat := by
      intro hmem
      obtain ⟨d, hd, hc⟩ := mem_hexDigits hmem
      have hall : ∀ d < 16, ',' ≠ Nat.digitChar d := by decide
      exact hall d hd hc
    rw [toList_text_of_variable hb]
    simp [hhex, hvalue]

theorem text_ne_empty {e : Entry} (h : e.value.isFloat = false) : e.text ≠ "" := by
  cases hb : e.isBoundary with
  | true =>
    rw [text_of_boundary hb]
    exact Value.text_ne_empty h
  | false =>
    intro hempty
    have hlist := toList_text_of_variable hb
    rw [hempty] at hlist
    cases hlist

theorem text_ne_of_boundary {e f : Entry} (he : e.value.isFloat = false) (hb : e.isBoundary = true)
    (hf : f.isBoundary = false) : e.text ≠ f.text := by
  intro h
  refine Value.not_mem_text he rfl (Value.label_unmarked e.value).2 ?_
  rw [← text_of_boundary hb, h, toList_text_of_variable hf]
  simp

theorem text_inj {e f : Entry} (he : e.value.isFloat = false) (hf : f.value.isFloat = false) :
    e.text = f.text ↔ e = f := by
  refine ⟨fun h => ?_, congrArg text⟩
  cases hbe : e.isBoundary with
  | true =>
    cases hbf : f.isBoundary with
    | false => exact absurd h (text_ne_of_boundary he hbe hbf)
    | true =>
      rw [text_of_boundary hbe, text_of_boundary hbf, Value.text_inj he hf] at h
      have hname := (name_of_boundary hbe).trans (name_of_boundary hbf).symm
      obtain ⟨name, value⟩ := e
      obtain ⟨name', value'⟩ := f
      obtain rfl : name = name' := hname
      obtain rfl : value = value' := h
      rfl
  | false =>
    cases hbf : f.isBoundary with
    | true => exact absurd h.symm (text_ne_of_boundary hf hbf hbe)
    | false =>
      -- eight digits on either side, so the texts of the values begin at the same place
      have hlist := congrArg String.toList h
      rw [toList_text_of_variable hbe, toList_text_of_variable hbf] at hlist
      obtain ⟨hhex, hrest⟩ := List.append_inj (List.cons.inj hlist).2 (by simp [length_hexDigits])
      have hvalue := (Value.text_inj he hf).mp (String.toList_inj.mp (List.cons.inj hrest).2)
      have hbits := hexDigits_inj (Nat.lt_of_lt_of_le (UInt32.toNat_lt _) (by decide))
        (Nat.lt_of_lt_of_le (UInt32.toNat_lt _) (by decide)) hhex
      obtain ⟨⟨bits⟩, value⟩ := e
      obtain ⟨⟨bits'⟩, value'⟩ := f
      obtain rfl : bits = bits' := UInt32.toNat_inj.mp hbits
      obtain rfl : value = value' := hvalue
      rfl

end Entry

/-! ### Items between brackets -/

/-- What stands between the commas: every item but the first has a space before it. -/
def spaced : List (List Char) → List (List Char)
  | [] => []
  | item :: items => item :: items.map (' ' :: ·)

theorem intercalate_eq_spaced (items : List (List Char)) :
    [',', ' '].intercalate items = [','].intercalate (spaced items) := by
  have hspace : ∀ item items, ' ' :: [','].intercalate (item :: items) =
      [','].intercalate ((' ' :: item) :: items) := by
    intro item items
    cases items <;> simp
  induction items with
  | nil => rfl
  | cons item items ih =>
    cases items with
    | nil => simp [spaced]
    | cons next rest =>
      rw [List.intercalate_cons_cons, ih, spaced, spaced, List.map_cons,
        List.intercalate_cons_cons, ← hspace]
      simp

theorem spaced_inj {xs ys : List (List Char)} (h : spaced xs = spaced ys) : xs = ys := by
  cases xs with
  | nil =>
    cases ys with
    | nil => rfl
    | cons y ys => cases h
  | cons x xs =>
    cases ys with
    | nil => cases h
    | cons y ys =>
      obtain ⟨rfl, htail⟩ := List.cons.inj h
      rw [List.map_inj_right (fun _ _ hcons => (List.cons.inj hcons).2) |>.mp htail]

/-- Split at the commas, a line gives its items back. -/
theorem splitOn_intercalate_comma {items : List (List Char)} (hne : items ≠ [])
    (h : ∀ item ∈ items, ',' ∉ item) :
    ([',', ' '].intercalate items).splitOn ',' = spaced items := by
  rw [intercalate_eq_spaced]
  refine List.splitOn_intercalate ',' ?_ ?_
  · cases items with
    | nil => exact absurd rfl hne
    | cons item items =>
      intro l hl
      rcases List.mem_cons.mp hl with rfl | hl
      · exact h l List.mem_cons_self
      · obtain ⟨item', hitem', rfl⟩ := List.mem_map.mp hl
        simpa using h item' (List.mem_cons_of_mem item hitem')
  · cases items with
    | nil => exact absurd rfl hne
    | cons item items => simp [spaced]

/-- An item that can be told apart in a line: it is there, and it has no comma. -/
def Legible (item : List Char) : Prop := item ≠ [] ∧ ',' ∉ item

theorem intercalate_ne_nil {item : List Char} (h : Legible item) (items : List (List Char)) :
    [',', ' '].intercalate (item :: items) ≠ [] := by
  cases items <;> simp [h.1]

theorem intercalate_inj {xs ys : List (List Char)} (hx : ∀ item ∈ xs, Legible item)
    (hy : ∀ item ∈ ys, Legible item)
    (h : [',', ' '].intercalate xs = [',', ' '].intercalate ys) : xs = ys := by
  cases xs with
  | nil =>
    cases ys with
    | nil => rfl
    | cons y ys => exact absurd h.symm (intercalate_ne_nil (hy y List.mem_cons_self) ys)
  | cons x xs =>
    cases ys with
    | nil => exact absurd h (intercalate_ne_nil (hx x List.mem_cons_self) xs)
    | cons y ys =>
      have hsplit := congrArg (List.splitOn ',') h
      rw [splitOn_intercalate_comma (by simp) fun item hitem => (hx item hitem).2,
        splitOn_intercalate_comma (by simp) fun item hitem => (hy item hitem).2] at hsplit
      exact spaced_inj hsplit

theorem toList_bracketed (items : List String) :
    (bracketed items).toList =
      '[' :: ([',', ' '].intercalate (items.map String.toList) ++ [']']) := by
  simp [bracketed, String.toList_intercalate]

section Shown
variable {α : Type} {text : α → String} {P : α → Prop}

theorem eq_of_map_eq (hinj : ∀ a b, P a → P b → (text a = text b ↔ a = b)) {xs ys : List α}
    (hx : ∀ a ∈ xs, P a) (hy : ∀ a ∈ ys, P a) (h : xs.map text = ys.map text) : xs = ys := by
  induction xs generalizing ys with
  | nil => exact (List.map_eq_nil_iff.mp h.symm).symm
  | cons x xs ih =>
    cases ys with
    | nil => cases h
    | cons y ys =>
      obtain ⟨hhead, htail⟩ := List.cons.inj h
      have hxs := fun a ha => hx a (List.mem_cons_of_mem x ha)
      have hys := fun a ha => hy a (List.mem_cons_of_mem y ha)
      rw [(hinj x y (hx x List.mem_cons_self) (hy y List.mem_cons_self)).mp hhead,
        ih hxs hys htail]

/-- If no two elements have one text and all texts are legible, no two lists have one line. -/
theorem bracketed_map_inj (hlegible : ∀ a, P a → Legible (text a).toList)
    (hinj : ∀ a b, P a → P b → (text a = text b ↔ a = b)) {xs ys : List α}
    (hx : ∀ a ∈ xs, P a) (hy : ∀ a ∈ ys, P a) :
    bracketed (xs.map text) = bracketed (ys.map text) ↔ xs = ys := by
  refine ⟨fun h => ?_, fun h => by rw [h]⟩
  have hitems : ∀ {zs : List α}, (∀ a ∈ zs, P a) →
      ∀ item ∈ (zs.map text).map String.toList, Legible item := by
    intro zs hz item hitem
    obtain ⟨s, hs, rfl⟩ := List.mem_map.mp hitem
    obtain ⟨a, ha, rfl⟩ := List.mem_map.mp hs
    exact hlegible a (hz a ha)
  have hlist := congrArg String.toList h
  rw [toList_bracketed, toList_bracketed] at hlist
  have hjoined := List.append_cancel_right (List.cons.inj hlist).2
  have htexts := intercalate_inj (hitems hx) (hitems hy) hjoined
  exact eq_of_map_eq hinj hx hy
    (List.map_inj_right (fun _ _ => String.toList_inj.mp) |>.mp htexts)

end Shown

namespace Script
open Context

theorem bracketed_values {xs ys : List Value} (hx : ∀ v ∈ xs, v.isFloat = false)
    (hy : ∀ v ∈ ys, v.isFloat = false) :
    bracketed (xs.map Value.text) = bracketed (ys.map Value.text) ↔ xs = ys := by
  refine bracketed_map_inj (fun v hv => ⟨?_, ?_⟩) (fun _ _ => Value.text_inj) hx hy
  · exact fun h => Value.text_ne_empty hv (String.toList_eq_nil_iff.mp h)
  · exact Value.not_mem_text hv rfl (Value.label_unmarked v).1

theorem bracketed_entries {xs ys : List Entry} (hx : ∀ e ∈ xs, e.value.isFloat = false)
    (hy : ∀ e ∈ ys, e.value.isFloat = false) :
    bracketed (xs.map Entry.text) = bracketed (ys.map Entry.text) ↔ xs = ys := by
  refine bracketed_map_inj (fun e he => ⟨?_, ?_⟩) (fun _ _ => Entry.text_inj) hx hy
  · exact fun h => Entry.text_ne_empty he (String.toList_eq_nil_iff.mp h)
  · exact Entry.comma_not_mem_text he

/-- A dump always prints a line, and as long as no float is among the values, the line tells what is on
the stack: on no other context does it print the same unless the same values, or the same entries,
are there in the same order. -/
theorem dumps_unambiguous (c d : Context) :
    ((∀ v ∈ c.eval.toList ++ d.eval.toList, v.isFloat = false) →
      ∃ x y, attempt (Op.dump .eval).execute c = (.ok (some x), c) ∧
        attempt (Op.dump .eval).execute d = (.ok (some y), d) ∧
        (x = y ↔ c.eval.toList = d.eval.toList)) ∧
    ((∀ e ∈ c.calls.toList ++ d.calls.toList, e.value.isFloat = false) →
      ∃ x y, attempt (Op.dump .call).execute c = (.ok (some x), c) ∧
        attempt (Op.dump .call).execute d = (.ok (some y), d) ∧
        (x = y ↔ c.calls.toList = d.calls.toList)) := by
  constructor
  · intro h
    obtain ⟨hc, hd⟩ := List.forall_mem_append.mp h
    exact ⟨_, _, rfl, rfl, bracketed_values hc hd⟩
  · intro h
    obtain ⟨hc, hd⟩ := List.forall_mem_append.mp h
    exact ⟨_, _, rfl, rfl, bracketed_entries hc hd⟩

/-- The handle begins as the other one does, and the number after it is the rest of that. -/
def firstDumped : List Context.Op :=
  [.eval (.push (.int 1)), .eval (.push (.str ⟨1⟩)), .calls (.pushFrame ⟨7, .tunnel⟩)]

/-- A variable is given the record that begins the frame of the other context. -/
def secondDumped : List Context.Op :=
  [.eval (.push (.str ⟨11⟩)), .calls (.set ⟨7⟩ (.frame ⟨7, .tunnel⟩))]

theorem dumped_unambiguous :
    ∃ start, Context.ofConfig tight = .ok start ∧
      let c := (attempts Context.Op.perform firstDumped start).2
      let d := (attempts Context.Op.perform secondDumped start).2
      (∀ v ∈ c.eval.toList ++ d.eval.toList, v.isFloat = false) ∧
      (∀ e ∈ c.calls.toList ++ d.calls.toList, e.value.isFloat = false) ∧
      (∃ x y, attempt (Op.dump .eval).execute c = (.ok (some x), c) ∧
        attempt (Op.dump .eval).execute d = (.ok (some y), d) ∧ x ≠ y) ∧
      ∃ x y, attempt (Op.dump .call).execute c = (.ok (some x), c) ∧
        attempt (Op.dump .call).execute d = (.ok (some y), d) ∧ x ≠ y := by
  have hstart : Context.ofConfig tight = .ok _ := rfl
  refine ⟨_, hstart, ?_⟩
  intro c d
  have hceval : c.eval.toList = [.str ⟨1⟩, .int 1] := by rfl
  have hdeval : d.eval.toList = [.str ⟨11⟩] := by rfl
  have hccalls : c.calls.toList = [.boundary ⟨7, .tunnel⟩] := by rfl
  have hdcalls : d.calls.toList = [⟨⟨7⟩, .frame ⟨7, .tunnel⟩⟩] := by rfl
  have heval : ∀ v ∈ c.eval.toList ++ d.eval.toList, v.isFloat = false := by
    simp [hceval, hdeval, Value.isFloat]
  have hcalls : ∀ e ∈ c.calls.toList ++ d.calls.toList, e.value.isFloat = false := by
    simp [hccalls, hdcalls, Entry.boundary, Value.isFloat]
  obtain ⟨x, y, hx, hy, hxy⟩ := (dumps_unambiguous c d).1 heval
  obtain ⟨x', y', hx', hy', hxy'⟩ := (dumps_unambiguous c d).2 hcalls
  refine ⟨heval, hcalls, ⟨x, y, hx, hy, ?_⟩, x', y', hx', hy', ?_⟩
  · rw [ne_eq, hxy, hceval, hdeval]
    simp
  · rw [ne_eq, hxy', hccalls, hdcalls]
    simp [Entry.boundary, NameHash.invalid]

end Script
end Narrative
