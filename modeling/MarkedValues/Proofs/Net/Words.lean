import Mathlib.Data.Nat.Bitwise
import MarkedValues.Net.Block

/-!
What the steps on words do to numbers. Below a mask an OR is a sum, a step in front of the first
address or behind the last is taken modulo the size of the family, and a shift multiplies as long as
nothing leaves the word.
-/
namespace MarkedValues.Net

section

variable (f : Family) (length : Nat)

theorem blockSize_pos : 0 < blockSize f length := Nat.two_pow_pos _

theorem blockSize_dvd_size : blockSize f length ∣ f.size := Nat.pow_dvd_pow 2 (Nat.sub_le ..)

end

/-- A word that only has bits below the block of another is added to it. -/
theorem toNat_or {v w : Word} {n : Nat} (aligned : 2 ^ n ∣ v.toNat) (below : w.toNat < 2 ^ n) :
    (v ||| w).toNat = v.toNat + w.toNat := by
  obtain ⟨k, hk⟩ := aligned
  rw [BitVec.toNat_or, hk, Nat.two_pow_add_eq_or_of_lt below]

theorem toNat_shiftLeft? {w : Word} {n : Nat} (fits : w.toNat * 2 ^ n < 2 ^ 128) :
    ((shiftLeft? w n).getD 0).toNat = w.toNat * 2 ^ n := by
  rw [shiftLeft?]
  split
  · rw [Option.getD_some, BitVec.toNat_shiftLeft, Nat.shiftLeft_eq, Nat.mod_eq_of_lt fits]
  · next long =>
    have wide : 2 ^ 128 ≤ 2 ^ n := Nat.pow_le_pow_right Nat.two_pos (by omega)
    have none : w.toNat = 0 := by
      by_contra some
      have := Nat.le_mul_of_pos_left (2 ^ n) (Nat.pos_of_ne_zero some)
      omega
    rw [none, Nat.zero_mul]
    rfl

theorem toNat_one_shiftLeft {n : Nat} (short : n < 128) : ((1 : Word) <<< n).toNat = 2 ^ n := by
  have fits : 2 ^ n < 2 ^ 128 := Nat.pow_lt_pow_right Nat.one_lt_two short
  rw [BitVec.toNat_shiftLeft, Nat.shiftLeft_eq]
  exact (Nat.mod_eq_of_lt (by simpa using fits)).trans (Nat.one_mul _)

namespace Family

theorem toNat_and_full (f : Family) (w : Word) : (w &&& f.full).toNat = w.toNat % f.size := by
  have ones : f.full.toNat = 2 ^ f.width - 1 := by cases f <;> decide +kernel
  rw [BitVec.toNat_and, ones, Nat.and_two_pow_sub_one_eq_mod]
  rfl

theorem size_dvd_word (f : Family) : f.size ∣ 2 ^ 128 := Nat.pow_dvd_pow 2 f.width_le

theorem toNat_sub_one_mod (f : Family) (w : Word) :
    (w - 1).toNat % f.size = (w.toNat + (f.size - 1)) % f.size := by
  have positive := f.size_pos
  obtain ⟨k, hk⟩ := f.size_dvd_word
  obtain ⟨j, rfl⟩ : ∃ j, k = j + 1 := Nat.exists_eq_add_one_of_ne_zero (by rintro rfl; cases hk)
  have steps : 2 ^ 128 - (1 : Word).toNat + w.toNat = w.toNat + (f.size - 1) + f.size * j := by
    rw [Nat.mul_add_one] at hk
    have one : (1 : Word).toNat = 1 := rfl
    omega
  rw [BitVec.toNat_sub, Nat.mod_mod_of_dvd _ f.size_dvd_word, steps, Nat.add_mul_mod_self_left]

theorem toNat_add_one_mod (f : Family) (w : Word) :
    (w + 1).toNat % f.size = (w.toNat + 1) % f.size := by
  rw [BitVec.toNat_add, Nat.mod_mod_of_dvd _ f.size_dvd_word]
  rfl

/-- The bits that a mask takes away. -/
theorem toNat_rest (f : Family) (length : Nat) :
    (f.full &&& ~~~f.mask length).toNat = blockSize f length - 1 := by
  have width := f.width_le
  refine Nat.eq_of_testBit_eq fun i => ?_
  rw [BitVec.testBit_toNat, BitVec.getLsbD_and, BitVec.getLsbD_not, getLsbD_full, getLsbD_mask,
    blockSize, Nat.pow_eq, Nat.testBit_two_pow_sub_one, Bool.eq_iff_iff]
  simp only [Bool.and_eq_true, Bool.not_eq_true', decide_eq_true_eq, Bool.and_eq_false_iff,
    decide_eq_false_iff_not]
  omega

end Family

namespace Address

variable (f : Family) (w : Word)

theorem ofWord_and_full : ofWord f (w &&& f.full) = .ofNat f w.toNat := by
  simp only [ofWord, ofNat, Family.toNat_and_full, Nat.mod_mod]

theorem ofWord_sub_one :
    ofWord f ((w - 1) &&& f.full) = .ofNat f (w.toNat + (f.size - 1)) := by
  simp only [ofWord_and_full, ofNat, Family.toNat_sub_one_mod]

theorem ofWord_add_one : ofWord f ((w + 1) &&& f.full) = .ofNat f (w.toNat + 1) := by
  simp only [ofWord_and_full, ofNat, Family.toNat_add_one_mod]

theorem eq_of_number {a b : Address} (family : a.family = b.family)
    (number : a.number = b.number) : a = b := by
  cases a
  cases b
  cases family
  cases number
  rfl

end Address

namespace Block

theorem eq_of_parts {p q : Block} (family : p.family = q.family) (length : p.length = q.length)
    (number : p.network.number = q.network.number) : p = q := by
  have network : p.network = q.network := Address.eq_of_number family number
  cases p
  cases q
  cases network
  cases length
  rfl

theorem number_around (a : Address) (l : Nat) :
    (around a l).network.number = alignDown a.number (blockSize a.family l) := a.number_masked l

variable {p : Block} {a : Address}

theorem size_pos (p : Block) : 0 < p.size := blockSize_pos ..

theorem size_dvd_number (p : Block) : p.size ∣ p.network.number := p.aligned

theorem end_le (p : Block) : p.network.number + p.size ≤ p.family.size := by
  obtain ⟨k, hk⟩ := p.size_dvd_number
  obtain ⟨n, hn⟩ : p.size ∣ p.family.size := blockSize_dvd_size ..
  have inside : p.size * k < p.size * n := hk ▸ hn ▸ p.network.number_lt
  have next : k + 1 ≤ n := Nat.lt_of_mul_lt_mul_left inside
  calc p.network.number + p.size = p.size * (k + 1) := by rw [hk, Nat.mul_add_one]
    _ ≤ p.size * n := Nat.mul_le_mul_left _ next
    _ = p.family.size := hn.symm

theorem hostBits_le (p : Block) : p.hostBits ≤ 128 := (Nat.sub_le ..).trans p.family.width_le

/-- All but the largest block have a size that is a word. -/
theorem capacity_cases (p : Block) :
    (∃ c, shiftLeft? 1 p.hostBits = some c ∧ c.toNat = p.size) ∨
      shiftLeft? 1 p.hostBits = none ∧ p.size = 2 ^ 128 := by
  rw [shiftLeft?]
  rcases Nat.lt_or_eq_of_le p.hostBits_le with short | whole
  · exact .inl ⟨_, if_pos short, toNat_one_shiftLeft short⟩
  · exact .inr ⟨if_neg whole.not_lt, congrArg (2 ^ ·) whole⟩

theorem size_le_word (p : Block) : p.size ≤ 2 ^ 128 :=
  Nat.pow_le_pow_right Nat.two_pos p.hostBits_le

/-- The address at an offset, whose bits are those below the block. -/
theorem ofWord_or (p : Block) {w : Word} (inside : w.toNat < p.size) :
    Address.ofWord p.family (p.network.word ||| w) =
      .ofNat p.family (p.network.number + w.toNat) := by
  have aligned : 2 ^ p.hostBits ∣ p.network.word.toNat :=
    (Address.toNat_word _).symm ▸ p.size_dvd_number
  rw [Address.ofWord, toNat_or aligned inside, Address.toNat_word]

theorem number_last (p : Block) : p.last.number = p.network.number + p.size - 1 := by
  have pos := p.size_pos
  have fits := p.end_le
  have rest := p.family.toNat_rest p.length
  have inside : p.size - 1 < p.size := by omega
  rw [last, p.ofWord_or (rest ▸ inside), rest, Address.number_ofNat]
  change (p.network.number + (p.size - 1)) % p.family.size = _
  rw [Nat.mod_eq_of_lt (by omega)]
  omega

theorem contains_iff_alignDown : p.contains a = true ↔
    a.family = p.family ∧ alignDown a.number p.size = p.network.number := by
  rw [contains, Bool.and_eq_true, beq_iff_eq, beq_iff_eq]
  refine and_congr_right fun family => ?_
  rw [← family, ← BitVec.toNat_inj, Address.toNat_masked, Address.toNat_word, family]
  rfl

theorem previous_eq_ofNat (p : Block) (l : Nat) : p.previous l =
    around (.ofNat p.family (p.network.number + (p.family.size - 1))) l := by
  rw [previous, Address.ofWord_sub_one, Address.toNat_word]

theorem next_eq_ofNat (p : Block) (l : Nat) : p.next l =
    (around (.ofNat p.family ((around p.last l).last.number + 1)) l,
      ((around p.last l).last.number + 1) % p.family.size == 0) := by
  have wraps : (((around p.last l).last.word + 1) &&& p.family.full == 0) =
      (((around p.last l).last.number + 1) % p.family.size == 0) := by
    rw [Bool.eq_iff_iff, beq_iff_eq, beq_iff_eq, ← BitVec.toNat_inj, Family.toNat_and_full,
      Family.toNat_add_one_mod, Address.toNat_word]
    rfl
  rw [next, wraps, Address.ofWord_add_one, Address.toNat_word]

theorem unmapped_eq_ofNat (six : p.family = .v6) : p.unmapped =
    if 96 ≤ p.length ∧ p.network.number / Family.v4.size = Address.mappedHigh then
      around (.ofNat .v4 p.network.number) (p.length - 96)
    else p := by
  have high : p.network.word >>> 32 = 0xffff ↔
      p.network.number / Family.v4.size = Address.mappedHigh := by
    rw [← BitVec.toNat_inj, BitVec.toNat_ushiftRight, Address.toNat_word, Nat.shiftRight_eq_div_pow]
    rfl
  rw [unmapped, six]
  simp only [high, Address.ofWord_and_full, Address.toNat_word]

end Block

end MarkedValues.Net
