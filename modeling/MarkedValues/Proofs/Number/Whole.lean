import Mathlib.Data.Nat.Bitwise
import Mathlib.Tactic.Ring
import MarkedValues.Number.Rounding

/-!
Numbers that are integers. A number is handed out as an integer when it is one within the limit, and
every integer of up to 53 bits is a number, so rounding leaves it alone.
-/
namespace MarkedValues.Number

/-- One is a power of two of steps; the exponent is kept apart, so that the power is never
    computed. -/
theorem exists_stepsPerUnit : ∃ e, stepsPerUnit = 2 ^ e ∧ e = 1074 := by
  unfold stepsPerUnit
  generalize 1074 = e
  exact ⟨e, rfl, rfl⟩

theorem stepsPerUnit_pos : 0 < stepsPerUnit := by
  obtain ⟨e, steps, _⟩ := exists_stepsPerUnit
  exact steps ▸ Nat.two_pow_pos e

theorem stepsPerUnit_ne_zero : (stepsPerUnit : Int) ≠ 0 :=
  Int.natCast_ne_zero.2 stepsPerUnit_pos.ne'

/-- The value of the number is this integer. -/
def IsInt (n : Number) (k : Int) : Prop :=
  n.isFinite = true ∧ n.signedSteps = k * (stepsPerUnit : Int)

theorem IsInt.unique {n : Number} {k m : Int} (hk : n.IsInt k) (hm : n.IsInt m) : k = m :=
  Int.eq_of_mul_eq_mul_right stepsPerUnit_ne_zero (hk.2.symm.trans hm.2)

def signedWhole (n : Number) : Int := if n.isNegative then -(n.wholePart : Int) else n.wholePart

theorem dvd_signedSteps_iff {n : Number} :
    (stepsPerUnit : Int) ∣ n.signedSteps ↔ n.steps % stepsPerUnit = 0 := by
  have magnitude : (stepsPerUnit : Int) ∣ n.signedSteps ↔ (stepsPerUnit : Int) ∣ n.steps := by
    rw [signedSteps]
    split
    · exact Int.dvd_neg
    · exact Iff.rfl
  rw [magnitude, Int.natCast_dvd_natCast, Nat.dvd_iff_mod_eq_zero]

theorem signedSteps_of_whole {n : Number} (whole : n.steps % stepsPerUnit = 0) :
    n.signedSteps = n.signedWhole * stepsPerUnit := by
  have steps : (n.steps : Int) = n.wholePart * stepsPerUnit := by
    exact_mod_cast (Nat.div_mul_cancel (Nat.dvd_of_mod_eq_zero whole)).symm
  rw [signedSteps, signedWhole, steps]
  split
  · exact (Int.neg_mul ..).symm
  · rfl

theorem isInt_iff {n : Number} {k : Int} : n.IsInt k ↔ n.isWhole = true ∧ n.signedWhole = k := by
  rw [isWhole, Bool.and_eq_true, beq_iff_eq, and_assoc]
  refine and_congr_right fun _ => ?_
  constructor
  · intro value
    have whole := dvd_signedSteps_iff.1 (value ▸ Int.dvd_mul_left k _)
    have same := (signedSteps_of_whole whole).symm.trans value
    exact ⟨whole, Int.eq_of_mul_eq_mul_right stepsPerUnit_ne_zero same⟩
  · rintro ⟨whole, rfl⟩
    exact signedSteps_of_whole whole

theorem toInt?_eq_some_iff {n : Number} {k : Int} :
    n.toInt? = some k ↔ n.IsInt k ∧ -(intLimit : Int) ≤ k ∧ k < intLimit := by
  have unfolded : n.toInt? = if n.isWhole && -(intLimit : Int) ≤ n.signedWhole &&
      n.signedWhole < intLimit then some n.signedWhole else none := rfl
  rw [isInt_iff, unfolded, Option.ite_none_right_eq_some]
  simp only [Bool.and_eq_true, decide_eq_true_eq, Option.some.injEq]
  constructor
  · rintro ⟨⟨⟨whole, low⟩, high⟩, rfl⟩
    exact ⟨⟨whole, rfl⟩, low, high⟩
  · rintro ⟨⟨whole, rfl⟩, low, high⟩
    exact ⟨⟨⟨whole, low⟩, high⟩, rfl⟩

theorem natAbs_lt_of_toInt? {n : Number} {k : Int} (h : n.toInt? = some k) : k.natAbs < 2 ^ 128 := by
  obtain ⟨_, low, high⟩ := toInt?_eq_some_iff.1 h
  unfold intLimit at low high
  omega

theorem nearestQuotient_mul (q den : Nat) (positive : 0 < den) :
    nearestQuotient (q * den) den = q := by
  simp [nearestQuotient, Nat.mul_div_cancel q positive, positive]

theorem codeOfSteps_significand {q k : Nat} (low : binadeSize ≤ q) (high : q < 2 * binadeSize)
    (finite : k ≤ 2044) : codeOfSteps (q * 2 ^ k) 1 = k * binadeSize + q := by
  have log : (q * 2 ^ k).log2 = k + 52 := by
    have positive := Nat.two_pow_pos k
    have some : q * 2 ^ k ≠ 0 := by
      have := Nat.mul_le_mul_right (2 ^ k) low
      have : 0 < binadeSize * 2 ^ k := Nat.mul_pos (by decide) positive
      omega
    refine (Nat.log2_eq_iff some).2 ⟨?_, ?_⟩
    · rw [Nat.add_comm, Nat.pow_add]
      exact Nat.mul_le_mul_right _ low
    · rw [show k + 52 + 1 = 53 + k by omega, Nat.pow_add]
      exact Nat.mul_lt_mul_of_pos_right high positive
  have quotient : nearestQuotient (q * 2 ^ k) (1 * Nat.pow 2 k) = q := by
    rw [Nat.one_mul]
    exact nearestQuotient_mul q _ (Nat.two_pow_pos k)
  rw [codeOfSteps, Nat.div_one, log, Nat.add_sub_cancel, quotient]
  refine Nat.min_eq_right ?_
  unfold infinityCode
  unfold binadeSize at high ⊢
  omega

theorem stepsOfCode_significand {q k : Nat} (low : binadeSize ≤ q) (high : q < 2 * binadeSize) :
    stepsOfCode (k * binadeSize + q) = q * 2 ^ k := by
  have exponent : (k * binadeSize + q) / binadeSize = k + 1 := by
    unfold binadeSize at low high ⊢
    omega
  have significand : binadeSize + (k * binadeSize + q) % binadeSize = q := by
    unfold binadeSize at low high ⊢
    omega
  have normal : ¬ k * binadeSize + q < binadeSize := by omega
  rw [stepsOfCode, if_neg normal, exponent, significand]
  rfl

theorem exists_significand {m : Nat} (positive : 0 < m) (small : m ≤ 2 ^ 53) :
    ∃ q k, m * stepsPerUnit = q * 2 ^ k ∧ binadeSize ≤ q ∧ q < 2 * binadeSize ∧ k ≤ 2044 := by
  obtain ⟨unit, steps, hunit⟩ := exists_stepsPerUnit
  rcases Nat.lt_or_ge m (2 ^ 53) with below | top
  · obtain ⟨low, high⟩ := (Nat.log2_eq_iff positive.ne').1 rfl
    have bits : m.log2 ≤ 52 := Nat.lt_succ_iff.1 ((Nat.log2_lt positive.ne').2 below)
    generalize m.log2 = e at low high bits
    refine ⟨m * 2 ^ (52 - e), e + 1022, ?_, ?_, ?_, by omega⟩
    · rw [steps, Nat.mul_assoc, ← Nat.pow_add, show 52 - e + (e + 1022) = unit by omega]
    · calc binadeSize = 2 ^ e * 2 ^ (52 - e) := by rw [← Nat.pow_add, Nat.add_sub_cancel' bits]; rfl
        _ ≤ m * 2 ^ (52 - e) := Nat.mul_le_mul_right _ low
    · calc m * 2 ^ (52 - e) < 2 ^ (e + 1) * 2 ^ (52 - e) :=
            Nat.mul_lt_mul_of_pos_right high (Nat.two_pow_pos _)
        _ = 2 * binadeSize := by rw [← Nat.pow_add, show e + 1 + (52 - e) = 53 by omega]; rfl
  · obtain rfl : m = 2 ^ 53 := Nat.le_antisymm small top
    refine ⟨2 ^ 52, unit + 1, ?_, by decide, by decide, by omega⟩
    rw [steps, ← Nat.pow_add, ← Nat.pow_add, show 53 + unit = 52 + (unit + 1) by omega]

/-- Magnitudes of up to 53 bits are not rounded. -/
theorem stepsOfCode_codeOfSteps {m : Nat} (small : m ≤ 2 ^ 53) :
    stepsOfCode (codeOfSteps (m * stepsPerUnit) 1) = m * stepsPerUnit ∧
      codeOfSteps (m * stepsPerUnit) 1 < infinityCode := by
  rcases Nat.eq_zero_or_pos m with rfl | positive
  · rw [Nat.zero_mul]
    decide
  · obtain ⟨q, k, significand, low, high, finite⟩ := exists_significand positive small
    rw [significand, codeOfSteps_significand low high finite]
    refine ⟨stepsOfCode_significand low high, ?_⟩
    unfold infinityCode
    unfold binadeSize at high ⊢
    omega

theorem toNat_ofCode {c : Nat} (negative : Bool) (h : c < infinityCode) :
    (ofCode negative c).bits.toNat = c + if negative then signBit else 0 := by
  have small : c < signBit := h.trans (by decide)
  have word : c + (if negative then signBit else 0) < 2 ^ 64 := by
    unfold signBit at small ⊢
    split <;> omega
  rw [ofCode, Nat.mod_eq_of_lt small]
  exact Nat.mod_eq_of_lt word

theorem code_ofCode {c : Nat} (negative : Bool) (h : c < infinityCode) :
    (ofCode negative c).code = c := by
  have small : c < signBit := h.trans (by decide)
  rw [code, toNat_ofCode negative h]
  cases negative with
  | false => exact Nat.mod_eq_of_lt small
  | true => exact (Nat.add_mod_right c signBit).trans (Nat.mod_eq_of_lt small)

theorem isNegative_ofCode {c : Nat} (negative : Bool) (h : c < infinityCode) :
    (ofCode negative c).isNegative = negative := by
  have small : c < signBit := h.trans (by decide)
  rw [isNegative, toNat_ofCode negative h]
  cases negative with
  | false => exact decide_eq_false (Nat.not_le.2 small)
  | true => exact decide_eq_true (Nat.le_add_left ..)

theorem isInt_ofInt {k : Int} (small : k.natAbs ≤ 2 ^ 53) : (ofInt k).IsInt k := by
  obtain ⟨steps, finite⟩ := stepsOfCode_codeOfSteps small
  rw [ofInt, ofRatio]
  refine ⟨?_, ?_⟩
  · rw [isFinite, code_ofCode _ finite]
    exact decide_eq_true finite
  · rw [signedSteps, isNegative_ofCode _ finite, Number.steps, code_ofCode _ finite, steps,
      Int.natCast_mul, Int.natCast_natAbs]
    split
    · next negative =>
      rw [abs_of_neg (of_decide_eq_true negative), Int.neg_mul, Int.neg_neg]
    · next positive =>
      rw [abs_of_nonneg (by simpa using positive)]

theorem toInt?_ofInt {k : Int} (small : k.natAbs ≤ 2 ^ 53) : (ofInt k).toInt? = some k := by
  have limit : intLimit = 2 ^ 63 := by decide
  apply toInt?_eq_some_iff.2
  refine ⟨isInt_ofInt small, ?_, ?_⟩ <;> omega

end MarkedValues.Number
