import Mathlib
import Narrative.Json.Decode
import Narrative.Proofs.Json.Grammar

/-! Integers as numerals: those of 64 bits are read back, and as doubles they are within range. -/
namespace Narrative

namespace Digits

theorem value_ofNat (n : Nat) : value (ofNat n) = n := by
  have hfold : value (ofNat n) = Nat.ofDigitChars 10 (Nat.toDigits 10 n) 0 := by
    rw [value, ofNat, List.foldl_map, Nat.ofDigitChars_eq_foldl]
    rfl
  rw [hfold, Nat.ofDigitChars_ten_toDigits]

theorem le_foldl (n : Nat) (ds : List Nat) : n ≤ ds.foldl (fun n d => 10 * n + d) n := by
  induction ds generalizing n with
  | nil => exact Nat.le_refl n
  | cons d ds ih => exact Nat.le_trans (by omega) (ih (10 * n + d))

end Digits

namespace Format

theorem divEven_le (num den : Nat) : divEven num den ≤ num + 1 := by
  have hdiv := Nat.div_le_self num den
  simp only [divEven]
  split <;> omega

section Nearest
variable (F : Format) (num den : Nat)

/-- The exponent before the grid is adapted to the quotient. -/
def roughExponent : Int := (Nat.log2 num : Int) - (Nat.log2 den : Int) - (F.precision : Int)

theorem gridExponent_bounds :
    F.roughExponent num den ≤ F.gridExponent num den ∧
      F.gridExponent num den ≤ max F.lowest (F.roughExponent num den + 1) := by
  simp only [gridExponent, roughExponent]
  split <;> omega

theorem scaled_le (e : Int) : (scaled num den e).1 ≤ num * 2 ^ (-e).toNat := by
  unfold scaled
  split
  · exact Nat.le_mul_of_pos_right num (Nat.two_pow_pos _)
  · exact Nat.le_of_eq (Nat.shiftLeft_eq _ _)

/-- A quotient that is well below the largest number of the format is rounded to one. -/
theorem nearest_of_small (hhigh : F.roughExponent num den + 2 ≤ F.highest)
    (hlow : F.lowest + 1 ≤ F.highest) :
    ∃ x, F.nearest num den = some x ∧
      x.exponent ≤ max F.lowest (F.roughExponent num den + 1) + 1 ∧
      x.significand ≤ num * 2 ^ (F.precision + Nat.log2 den) + 1 := by
  by_cases hnum : num = 0
  · exact ⟨⟨0, F.lowest⟩, by simp [nearest, hnum], by simp only; omega, Nat.zero_le _⟩
  obtain ⟨hlower, hupper⟩ := F.gridExponent_bounds num den
  have hscaled := scaled_le num den (F.gridExponent num den)
  rw [nearest, if_neg hnum]
  generalize F.gridExponent num den = e at hlower hupper hscaled ⊢
  have hpow : 2 ^ (-e).toNat ≤ 2 ^ (F.precision + Nat.log2 den) :=
    Nat.pow_le_pow_right (by decide) (by simp only [roughExponent] at hlower; omega)
  have hn := Nat.le_trans hscaled (Nat.mul_le_mul_left num hpow)
  have hm := divEven_le (scaled num den e).1 (scaled num den e).2
  simp only
  generalize divEven (scaled num den e).1 (scaled num den e).2 = m at hm ⊢
  -- a significand that is rounded up to a whole power of two is halved
  by_cases hcarry : m = 1 <<< F.precision
  · rw [if_pos hcarry, if_pos (by simp only; omega)]
    exact ⟨_, rfl, by simp only; omega, by simp only; omega⟩
  · rw [if_neg hcarry, if_pos (by simp only; omega)]
    exact ⟨_, rfl, by simp only; omega, by simp only; omega⟩

end Nearest

theorem log2_lt {n k : Nat} (hk : 0 < k) (h : n < 2 ^ k) : Nat.log2 n < k := by
  by_cases hn : n = 0
  · simpa [hn] using hk
  · exact (Nat.log2_lt hn).mpr h

theorem log2_mul_lt {a b j k : Nat} (hj : 0 < j) (ha : a < 2 ^ j) (hb : b < 2 ^ k) :
    Nat.log2 (a * b) < j + k := by
  refine log2_lt (Nat.add_pos_left hj k) ?_
  rw [Nat.pow_add]
  exact Nat.mul_lt_mul'' ha hb

/-- A number of 64 bits is rounded to a double whose ratio is not much greater. -/
theorem double_nearest_word {n : Nat} (h : n < 2 ^ 64) :
    ∃ x, double.nearest n 1 = some x ∧ x.ratio.1 < 2 ^ 132 := by
  have hlog := log2_lt (by decide) h
  have hone : Nat.log2 1 = 0 := rfl
  have hprecision : double.precision = 53 := rfl
  have hlowest : double.lowest = -1074 := rfl
  have hhighest : double.highest = 971 := rfl
  have hrough : double.roughExponent n 1 = (Nat.log2 n : Int) - 53 := by
    rw [roughExponent, hone, hprecision]
    rfl
  obtain ⟨x, hx, hexp, hsig⟩ := double.nearest_of_small n 1 (by omega) (by omega)
  rw [hprecision, hone] at hsig
  have hsig' : x.significand < 2 ^ 118 := by omega
  refine ⟨x, hx, ?_⟩
  unfold Magnitude.ratio
  split
  · have hpow : 2 ^ x.exponent.toNat ≤ 2 ^ 12 := Nat.pow_le_pow_right (by decide) (by omega)
    calc x.significand <<< x.exponent.toNat
        = x.significand * 2 ^ x.exponent.toNat := Nat.shiftLeft_eq _ _
      _ ≤ x.significand * 2 ^ 12 := Nat.mul_le_mul_left _ hpow
      _ < 2 ^ 132 := by omega
  · exact Nat.lt_trans hsig' (by decide)

/-- So is the product of two such doubles. -/
theorem isSome_double_mul {x y : Magnitude} (hx : x.ratio.1 < 2 ^ 132) (hy : y.ratio.1 < 2 ^ 132) :
    (double.mul x y).isSome = true := by
  have hprecision : double.precision = 53 := rfl
  have hhighest : double.highest = 971 := rfl
  have hlog := log2_mul_lt (by decide) hx hy
  have hhigh : double.roughExponent (x.ratio.1 * y.ratio.1) (x.ratio.2 * y.ratio.2) + 2 ≤
      double.highest := by
    rw [roughExponent]
    omega
  obtain ⟨z, hz, -⟩ := double.nearest_of_small _ _ hhigh (by decide)
  simp only [mul, hz, Option.isSome_some]

end Format

namespace Numeral

theorem appendWhole_of_fits {sig : Nat} {ds : List Nat}
    (h : ds.foldl (fun n d => 10 * n + d) sig < UInt64.size) :
    appendWhole sig ds = (ds.foldl (fun n d => 10 * n + d) sig, 0) := by
  induction ds generalizing sig with
  | nil => rfl
  | cons d ds ih =>
    have hlt : 10 * sig + d < UInt64.size := Nat.lt_of_le_of_lt (Digits.le_foldl _ ds) h
    rw [appendWhole, if_pos hlt, ih h]
    rfl

theorem isSome_scale_zero {x : Magnitude} (h : x.ratio.1 < 2 ^ 132) :
    (scale x 0).isSome = true := by
  obtain ⟨one, hone, hratio⟩ := Format.double_nearest_word (n := 1) (by decide)
  unfold scale
  by_cases hx : x.significand = 0
  · simp [hx]
  · simp [hx, hone, Format.isSome_double_mul h hratio]

variable {n : Int}

/-- An integer of 64 bits is within the range of doubles. -/
theorem isSome_double?_ofInt (h : n.natAbs < UInt64.size) : (ofInt n).double?.isSome = true := by
  have hvalue : Digits.value (ofInt n).whole = n.natAbs := Digits.value_ofNat _
  have hwhole : appendWhole 0 (ofInt n).whole = (n.natAbs, 0) := by
    rw [← hvalue] at h ⊢
    exact appendWhole_of_fits h
  have hfraction : appendFraction n.natAbs (ofInt n).fraction = (n.natAbs, 0) := rfl
  have hexp : (ofInt n).exponent.getD 0 = 0 := rfl
  obtain ⟨x, hx, hratio⟩ := Format.double_nearest_word h
  simp only [double?, hwhole, hfraction, hexp, hx]
  exact isSome_scale_zero hratio

theorem integer?_ofInt (hlow : -2 ^ 63 ≤ n) (hhigh : n < 2 ^ 64) : (ofInt n).integer? = some n := by
  have hvalue : Digits.value (ofInt n).whole = n.natAbs := Digits.value_ofNat _
  have hparts : (ofInt n).fraction = [] ∧ (ofInt n).exponent = none := ⟨rfl, rfl⟩
  have hneg : (ofInt n).negative = decide (n < 0) := rfl
  simp only [integer?, if_pos hparts, hvalue, hneg]
  by_cases hn : n < 0
  · have hfits : ¬ (n.natAbs = 0 ∨ UInt64.size < 2 * n.natAbs) := by
      simp only [UInt64.size]
      omega
    simp only [hn, decide_true, if_true, if_neg hfits, Option.some.injEq]
    omega
  · have hfits : n.natAbs < UInt64.size := by
      simp only [UInt64.size]
      omega
    simp only [hn, decide_false, Bool.false_eq_true, if_false, if_pos hfits, Option.some.injEq]
    omega

end Numeral

namespace Json

theorem int32?_ofInt (n : Int32) : (ofInt n.toInt).int32? = some n := by
  have hlow := n.le_toInt
  have hhigh := n.toInt_lt
  have hint : (ofInt n.toInt).integer? = some n.toInt :=
    Numeral.integer?_ofInt (by omega) (by omega)
  have hrange : Int32.minValue.toInt ≤ n.toInt ∧ n.toInt ≤ Int32.maxValue.toInt := by
    have hmin : Int32.minValue.toInt = -2 ^ 31 := rfl
    have hmax : Int32.maxValue.toInt = 2 ^ 31 - 1 := rfl
    omega
  simp only [int32?, hint, Option.bind_eq_bind, Option.bind_some, if_pos hrange, Int32.ofInt_toInt]
  rfl

theorem natBelow?_ofNat {n bound : Nat} (hn : n < bound) (hbound : bound ≤ UInt64.size) :
    (ofNat n).natBelow? bound = some n := by
  have hsize : UInt64.size = 2 ^ 64 := rfl
  have hint : (ofNat n).integer? = some (n : Int) :=
    Numeral.integer?_ofInt (by omega) (by omega)
  have hrange : 0 ≤ (n : Int) ∧ (n : Int).toNat < bound := ⟨Int.natCast_nonneg n, hn⟩
  simp only [natBelow?, hint, Option.bind_eq_bind, Option.bind_some, if_pos hrange]
  rfl

theorem word32?_ofNat (n : UInt32) : (ofNat n.toNat).word32? = some n := by
  rw [word32?, natBelow?_ofNat n.toNat_lt (by decide), Option.map_some, UInt32.ofNat_toNat]

theorem word64?_ofNat (n : UInt64) : (ofNat n.toNat).word64? = some n := by
  rw [word64?, natBelow?_ofNat n.toNat_lt (Nat.le_refl _), Option.map_some, UInt64.ofNat_toNat]

theorem readable_ofInt {depth : Nat} {n : Int} (h : n.natAbs < UInt64.size) :
    (ofInt n).Readable depth :=
  .num (Numeral.isSome_double?_ofInt h)

end Json

end Narrative
