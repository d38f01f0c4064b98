import MarkedValues.Net.Address

/-!
Addresses of both families as words of 128 bits, of which IPv4 uses the low 32. The mask of a length
keeps the leading bits: what it leaves of a number is the multiple of a block's size at or below it.
-/
namespace MarkedValues.Net

abbrev Word := BitVec 128

/-- Nothing from the width of a word on. -/
def shiftLeft? (w : Word) (n : Nat) : Option Word := if n < 128 then some (w <<< n) else none

/-- Nothing from the width of a word on. -/
def shiftRight? (w : Word) (n : Nat) : Option Word := if n < 128 then some (w >>> n) else none

/-- How many addresses a block of a length has; a length past the width counts as the width. -/
def blockSize (f : Family) (length : Nat) : Nat := Nat.pow 2 (f.width - length)

/-- A number down to the next multiple of a size. -/
def alignDown (n size : Nat) : Nat := n / size * size

theorem alignDown_le (n size : Nat) : alignDown n size ≤ n := Nat.div_mul_le_self n size

namespace Family

def full (f : Family) : Word := BitVec.allOnes 128 >>> (128 - f.width)

/-- Ones on the leading bits of the family's width. -/
def mask (f : Family) (length : Nat) : Word := f.full &&& ~~~(shiftRight? f.full length).getD 0

variable (f : Family) (length i : Nat)

theorem width_le : f.width ≤ 128 := by cases f <;> decide

theorem getLsbD_full : f.full.getLsbD i = decide (i < f.width) := by
  have := f.width_le
  simp only [full, BitVec.getLsbD_ushiftRight, BitVec.getLsbD_allOnes, decide_eq_decide]
  omega

theorem getLsbD_mask :
    (f.mask length).getLsbD i = (decide (f.width - length ≤ i) && decide (i < f.width)) := by
  have := f.width_le
  have shifted : ((shiftRight? f.full length).getD 0).getLsbD i = decide (length + i < f.width) := by
    unfold shiftRight?
    split
    · rw [Option.getD_some, BitVec.getLsbD_ushiftRight, getLsbD_full]
    · simp; omega
  rw [mask, BitVec.getLsbD_and, BitVec.getLsbD_not, shifted, getLsbD_full, Bool.eq_iff_iff]
  simp only [Bool.and_eq_true, Bool.not_eq_true', decide_eq_true_eq, decide_eq_false_iff_not]
  omega

end Family

namespace Address

def word (a : Address) : Word := .ofNat 128 a.number

def ofWord (f : Family) (w : Word) : Address := .ofNat f w.toNat

@[simp] theorem toNat_word (a : Address) : a.word.toNat = a.number :=
  Nat.mod_eq_of_lt
    (Nat.lt_of_lt_of_le a.number_lt (Nat.pow_le_pow_right Nat.two_pos a.family.width_le))

/-- What a mask leaves of an address. -/
theorem toNat_masked (a : Address) (length : Nat) :
    (a.word &&& a.family.mask length).toNat = alignDown a.number (blockSize a.family length) := by
  refine Nat.eq_of_testBit_eq fun i => ?_
  rw [BitVec.testBit_toNat, BitVec.getLsbD_and, Family.getLsbD_mask, ← BitVec.testBit_toNat,
    toNat_word, alignDown, blockSize, Nat.pow_eq, Nat.testBit_mul_two_pow, Nat.testBit_div_two_pow]
  rcases Nat.lt_or_ge i (a.family.width - length) with low | high
  · simp [Nat.not_le.2 low]
  · rw [Nat.sub_add_cancel high]
    rcases Nat.lt_or_ge i a.family.width with inside | beyond
    · simp [high, inside]
    · have size := Nat.pow_le_pow_right Nat.two_pos beyond
      simp [Nat.testBit_lt_two_pow (Nat.lt_of_lt_of_le a.number_lt size)]

theorem number_masked (a : Address) (length : Nat) :
    (ofWord a.family (a.word &&& a.family.mask length)).number =
      alignDown a.number (blockSize a.family length) := by
  rw [ofWord, number_ofNat, toNat_masked]
  exact Nat.mod_eq_of_lt (Nat.lt_of_le_of_lt (alignDown_le _ _) a.number_lt)

end Address

end MarkedValues.Net
