import Mathlib.Data.List.Basic
import Narrative.Name

/-! Which names share a hash. A round of the fold loses nothing of the hash it begins with, so a single
byte that differs is seen in the end, whatever follows it; only the move of zero to one can bring two
names together again. -/
namespace Narrative
namespace NameHash

/-! ### Rounds -/

/-- The FNV prime is odd, and so has an inverse. -/
theorem prime_mul_inverse : (0x01000193 : UInt32) * 0x359c449b = 1 := by decide

theorem mul_prime_inj {h k : UInt32} : h * 0x01000193 = k * 0x01000193 ↔ h = k := by
  constructor
  · intro heq
    calc
      h = h * 0x01000193 * 0x359c449b := by rw [UInt32.mul_assoc, prime_mul_inverse, UInt32.mul_one]
      _ = k * 0x01000193 * 0x359c449b := by rw [heq]
      _ = k := by rw [UInt32.mul_assoc, prime_mul_inverse, UInt32.mul_one]
  · rintro rfl
    rfl

theorem absorb_left_inj {h k : UInt32} (byte : UInt8) : absorb h byte = absorb k byte ↔ h = k := by
  rw [absorb, absorb, mul_prime_inj, UInt32.xor_left_inj]

theorem absorb_right_inj (h : UInt32) {a b : UInt8} : absorb h a = absorb h b ↔ a = b := by
  rw [absorb, absorb, mul_prime_inj, UInt32.xor_right_inj, UInt8.toUInt32_inj]

/-- Two hashes that differ still differ when the same bytes have been absorbed. -/
theorem foldl_absorb_inj (bytes : List UInt8) {h k : UInt32} :
    bytes.foldl absorb h = bytes.foldl absorb k ↔ h = k := by
  induction bytes generalizing h k with
  | nil => rfl
  | cons byte bytes ih => rw [List.foldl_cons, List.foldl_cons, ih, absorb_left_inj]

theorem fold_inj_at (p s : List UInt8) {a b : UInt8} :
    fold (p ++ a :: s) = fold (p ++ b :: s) ↔ a = b := by
  rw [fold_append, fold_append, List.foldl_cons, List.foldl_cons, foldl_absorb_inj, absorb_right_inj]

/-! ### A single byte -/

/-- Of equal length, with different bytes in exactly one place. -/
def DifferOnce (u v : List UInt8) : Prop := u.length = v.length ∧ ∃! i : Nat, u[i]? ≠ v[i]?

theorem DifferOnce.exists_parts {u v : List UInt8} (h : DifferOnce u v) :
    ∃ p a b s, a ≠ b ∧ u = p ++ a :: s ∧ v = p ++ b :: s := by
  obtain ⟨hlen, i, hi, hunique⟩ := h
  have helse : ∀ j, j ≠ i → u[j]? = v[j]? := fun j hj => by
    by_contra hdiffer
    exact hj (hunique j hdiffer)
  have hu : i < u.length := by
    by_contra hge
    exact hi (by rw [List.getElem?_eq_none (by omega), List.getElem?_eq_none (by omega)])
  have hv : i < v.length := hlen ▸ hu
  have hbefore : u.take i = v.take i := by
    refine List.ext_getElem? fun j => ?_
    by_cases hj : j < i
    · rw [List.getElem?_take_of_lt hj, List.getElem?_take_of_lt hj, helse j (by omega)]
    · rw [List.getElem?_take_eq_none (by omega), List.getElem?_take_eq_none (by omega)]
  have hafter : u.drop (i + 1) = v.drop (i + 1) := by
    refine List.ext_getElem? fun j => ?_
    rw [List.getElem?_drop, List.getElem?_drop, helse (i + 1 + j) (by omega)]
  refine ⟨u.take i, u[i], v[i], u.drop (i + 1), ?_, ?_, ?_⟩
  · intro heq
    exact hi (by rw [List.getElem?_eq_getElem hu, List.getElem?_eq_getElem hv, heq])
  · rw [List.getElem_cons_drop, List.take_append_drop]
  · rw [hbefore, hafter, List.getElem_cons_drop, List.take_append_drop]

theorem DifferOnce.fold_ne {u v : List UInt8} (h : DifferOnce u v) : fold u ≠ fold v := by
  obtain ⟨p, a, b, s, hab, rfl, rfl⟩ := h.exists_parts
  exact mt (fold_inj_at p s).mp hab

/-! ### Names -/

/-- The folds of two byte strings are the two that become one. -/
def Merged (u v : List UInt8) : Prop := fold u = 0 ∧ fold v = 1 ∨ fold u = 1 ∧ fold v = 0

theorem ofBytes_eq_iff {u v : List UInt8} : ofBytes u = ofBytes v ↔ fold u = fold v ∨ Merged u v := by
  unfold ofBytes Merged
  by_cases hu : fold u = 0 <;> by_cases hv : fold v = 0 <;> simp [hu, hv]
  · rw [or_iff_right (Ne.symm hv), eq_comm]

def utf8 (name : String) : List UInt8 := name.toUTF8.data.toList

/-- A fold tells byte strings apart that differ in one byte. So two names that differ in one byte share
their hash only if their folds are zero and one, and any two names share it exactly if their folds
are equal or are zero and one. -/
theorem aliases_exact :
    (∀ (p s : List UInt8) (a b : UInt8), a ≠ b → fold (p ++ a :: s) ≠ fold (p ++ b :: s)) ∧
    (∀ x y : String, DifferOnce (utf8 x) (utf8 y) →
      (ofName x = ofName y ↔ Merged (utf8 x) (utf8 y))) ∧
    ∀ x y : String, ofName x = ofName y ↔ fold (utf8 x) = fold (utf8 y) ∨ Merged (utf8 x) (utf8 y) := by
  have hnames : ∀ x y : String, ofName x = ofName y ↔
      fold (utf8 x) = fold (utf8 y) ∨ Merged (utf8 x) (utf8 y) := fun _ _ => ofBytes_eq_iff
  refine ⟨fun p s a b hab => mt (fold_inj_at p s).mp hab, fun x y h => ?_, hnames⟩
  rw [hnames, or_iff_right h.fold_ne]

/-- The accents differ in the second of their two bytes, the first and the last letter not at all. -/
theorem accents_alias_exact :
    DifferOnce (utf8 "née") (utf8 "nèe") ∧ ¬ Merged (utf8 "née") (utf8 "nèe") ∧
      ofName "née" ≠ ofName "nèe" := by
  have hx : utf8 "née" = [0x6e, 0xc3, 0xa9, 0x65] := by rfl
  have hy : utf8 "nèe" = [0x6e, 0xc3, 0xa8, 0x65] := by rfl
  have hdiffer : DifferOnce (utf8 "née") (utf8 "nèe") := by
    rw [hx, hy]
    refine ⟨rfl, 2, by decide, fun i hi => ?_⟩
    match i with
    | 0 | 1 | 3 => exact absurd rfl hi
    | 2 => rfl
    | _ + 4 => exact absurd rfl hi
  have hmerged : ¬ Merged (utf8 "née") (utf8 "nèe") := by
    rw [hx, hy]
    unfold Merged
    decide
  exact ⟨hdiffer, hmerged, fun h => hmerged ((aliases_exact.2.1 _ _ hdiffer).mp h)⟩

end NameHash
end Narrative
