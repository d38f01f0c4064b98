/-!
Signed words of 128 bits. A checked operation gives the exact result or, where that does not fit
into a word, nothing.
-/
namespace MarkedValues

abbrev Wide := BitVec 128

namespace Wide

def checkedMul (a b : Wide) : Option Wide := if a.smulOverflow b then none else some (a * b)

def checkedAdd (a b : Wide) : Option Wide := if a.saddOverflow b then none else some (a + b)

/-- The largest number that is a word. -/
def limit : Nat := Nat.pow 2 127 - 1

/-- Behind the limit comes 2^127. -/
theorem cast_limit : (limit : Int) + 1 = 170141183460469231731687303715884105728 := by decide

theorem toInt_le_limit (a : Wide) : a.toInt ≤ limit := by
  have high := a.toInt_lt
  have size := cast_limit
  omega

theorem toInt_ofNat {n : Nat} (fits : n ≤ limit) : (BitVec.ofNat 128 n : Wide).toInt = n := by
  have size := cast_limit
  rw [← BitVec.ofInt_natCast]
  refine BitVec.toInt_ofInt_eq_self (by decide) ?_ ?_ <;> omega

/-- Past either bound no word has the number. -/
theorem toInt_ne {n : Int} (outside : (limit : Int) < n ∨ n < -(limit : Int) - 1) (a : Wide) :
    a.toInt ≠ n := by
  have low := a.le_toInt
  have high := a.toInt_le_limit
  have size := cast_limit
  omega

/-- An operation that stops where the exact result is no word, and has it otherwise, gives `c`
    exactly when that is the result. -/
theorem checked_eq_some_iff {overflow : Bool} {w c : Wide} {n : Int}
    (past : overflow = true → (limit : Int) < n ∨ n < -(limit : Int) - 1)
    (exact : ¬ overflow = true → w.toInt = n) :
    (if overflow then none else some w) = some c ↔ c.toInt = n := by
  split
  · next stopped => exact iff_of_false nofun (toInt_ne (past stopped) c)
  · next fits => rw [Option.some.injEq, ← exact fits, BitVec.toInt_inj, eq_comm]

theorem checkedMul_eq_some_iff {a b c : Wide} :
    checkedMul a b = some c ↔ c.toInt = a.toInt * b.toInt := by
  refine checked_eq_some_iff (fun overflow => ?_) BitVec.toInt_mul_of_not_smulOverflow
  simp only [BitVec.smulOverflow, Bool.or_eq_true, decide_eq_true_eq] at overflow
  have size := cast_limit
  omega

theorem checkedAdd_eq_some_iff {a b c : Wide} :
    checkedAdd a b = some c ↔ c.toInt = a.toInt + b.toInt := by
  refine checked_eq_some_iff (fun overflow => ?_) BitVec.toInt_add_of_not_saddOverflow
  simp only [BitVec.saddOverflow, Bool.or_eq_true, decide_eq_true_eq] at overflow
  have size := cast_limit
  omega

end Wide

end MarkedValues
