/-!
Numbers are binary64 words. Everything that can be decided on the word is decided on the word:
class, sign, the two orders and the two equalities. The finite magnitudes are natural numbers of
steps of 2^-1074, so exact arithmetic on them never leaves `Nat`.
-/
namespace MarkedValues

/-- A binary64 number, NaNs with their payload. Equality of words is identity,
    not numeric equality. -/
structure Number where
  bits : UInt64
  deriving DecidableEq

namespace Number

/-- The sign bit of a word, 2^63. -/
def signBit : Nat := 0x8000000000000000

/-- How many codes share a power of two: 2^52. -/
def binadeSize : Nat := 0x10000000000000

/-- The magnitude code of infinity; every larger code is a NaN. -/
def infinityCode : Nat := 2047 * binadeSize

/-- The word without its sign. Codes of finite numbers are ordered as their magnitudes are. -/
def code (n : Number) : Nat := n.bits.toNat % signBit

def isNegative (n : Number) : Bool := signBit ≤ n.bits.toNat
def isNaN (n : Number) : Bool := infinityCode < n.code
def isInfinite (n : Number) : Bool := n.code == infinityCode
def isFinite (n : Number) : Bool := n.code < infinityCode
def isZero (n : Number) : Bool := n.code == 0

/-- The number with the given sign and magnitude code. -/
def ofCode (negative : Bool) (code : Nat) : Number :=
  ⟨UInt64.ofNat (code % signBit + if negative then signBit else 0)⟩

def zero : Number := ofCode false 0
def negativeZero : Number := ofCode true 0
def infinity : Number := ofCode false infinityCode
def negativeInfinity : Number := ofCode true infinityCode
def nan : Number := ofCode false (infinityCode + binadeSize / 2)

/-- The magnitude of a finite code in steps of 2^-1074. -/
def stepsOfCode (code : Nat) : Nat :=
  if code < binadeSize then code
  else (binadeSize + code % binadeSize) * Nat.pow 2 (code / binadeSize - 1)

def stepsPerUnit : Nat := Nat.pow 2 1074

def steps (n : Number) : Nat := stepsOfCode n.code

/-- The exact value of a finite number, in steps. -/
def signedSteps (n : Number) : Int := if n.isNegative then -(n.steps : Int) else n.steps

/-- The code with its sign: orders all numbers but NaNs by value, both zeros alike. -/
def signedCode (n : Number) : Int := if n.isNegative then -(n.code : Int) else n.code

/-- Numeric equality: no NaN equals anything, and the zeros are equal. -/
def same (a b : Number) : Bool := !a.isNaN && !b.isNaN && a.signedCode == b.signedCode

def less (a b : Number) : Bool := !a.isNaN && !b.isNaN && a.signedCode < b.signedCode

/-- A key that separates all words: negative NaNs first, then by value with -0 before 0, NaNs
    last. -/
def rank (n : Number) : Int := if n.isNegative then -(n.code : Int) - 1 else n.code

def order (a b : Number) : Ordering := compare a.rank b.rank

def abs (n : Number) : Number := ofCode false n.code

def signum (n : Number) : Int := if less zero n then 1 else if less n zero then -1 else 0

/-- The smaller of two; the first when neither is smaller, and never a NaN beside a number. -/
def min (a b : Number) : Number := if a.isNaN || less b a then b else a

/-- The larger of two; the first when neither is larger, and never a NaN beside a number. -/
def max (a b : Number) : Number := if a.isNaN || less a b then b else a

/-- A word is its magnitude code with the sign bit. -/
theorem toNat_bits (n : Number) :
    n.bits.toNat = n.code + if n.isNegative then signBit else 0 := by
  have hlt := n.bits.toNat_lt
  unfold code isNegative
  by_cases h : signBit ≤ n.bits.toNat
  · rw [Nat.mod_eq_sub_mod h, Nat.mod_eq_of_lt (by unfold signBit at h ⊢; omega)]
    simp [h]
  · rw [Nat.mod_eq_of_lt (Nat.lt_of_not_le h)]
    simp [h]

theorem order_eq_eq_iff {a b : Number} : order a b = .eq ↔ a = b := by
  rw [order, Int.compare_eq_eq]
  constructor
  · intro h
    have ha := a.toNat_bits
    have hb := b.toNat_bits
    have hbits : a.bits.toNat = b.bits.toNat := by
      unfold rank at h
      split at h <;> split at h <;> simp_all <;> omega
    cases a; cases b
    exact congrArg Number.mk (UInt64.toNat_inj.1 hbits)
  · rintro rfl; rfl

end Number

end MarkedValues
