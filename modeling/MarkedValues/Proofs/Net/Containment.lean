import MarkedValues.Proofs.Net.Words

/-!
What a block contains. The same addresses are meant by three tests: the address brought down to the
block's size is the network, the address lies between the first and the last of the block, and the
address begins with the bits of the network. The sizes are powers of two, so of two blocks of one
family that meet, the shorter holds the longer, and the two ends of a range decide for all of it.
-/
namespace MarkedValues.Net

section

variable {f : Family} {k l : Nat}

theorem blockSize_dvd_blockSize (h : l ≤ k) : blockSize f k ∣ blockSize f l :=
  Nat.pow_dvd_pow 2 (Nat.sub_le_sub_left h f.width)

theorem blockSize_le_iff (hl : l ≤ f.width) : blockSize f k ≤ blockSize f l ↔ l ≤ k := by
  have exponents : blockSize f k ≤ blockSize f l ↔ f.width - k ≤ f.width - l :=
    Nat.pow_le_pow_iff_right Nat.one_lt_two
  rw [exponents]
  omega

end

namespace Address

/-- The bits of an address, the highest first. -/
def bit (a : Address) (i : Nat) : Bool := a.number.testBit (a.family.width - 1 - i)

/-- Addresses that begin with the same bits are those that lie in one block of that length. -/
theorem bits_agree_iff {a b : Address} (family : a.family = b.family) {l : Nat}
    (hl : l ≤ a.family.width) :
    (∀ i < l, a.bit i = b.bit i) ↔
      a.number / blockSize a.family l = b.number / blockSize a.family l := by
  have ha : a.number < 2 ^ a.family.width := a.number_lt
  have hb : b.number < 2 ^ a.family.width := family ▸ b.number_lt
  simp only [bit, ← family, blockSize, Nat.pow_eq]
  constructor
  · intro agree
    refine Nat.eq_of_testBit_eq fun j => ?_
    rw [Nat.testBit_div_two_pow, Nat.testBit_div_two_pow]
    by_cases inside : j + (a.family.width - l) < a.family.width
    · have place : a.family.width - 1 - (l - 1 - j) = j + (a.family.width - l) := by omega
      rw [← place]
      exact agree _ (by omega)
    · -- No number of the family has a bit here.
      have beyond := Nat.pow_le_pow_right Nat.two_pos (Nat.le_of_not_lt inside)
      rw [Nat.testBit_lt_two_pow (ha.trans_le beyond), Nat.testBit_lt_two_pow (hb.trans_le beyond)]
  · intro same i hi
    have place : a.family.width - 1 - i = l - 1 - i + (a.family.width - l) := by omega
    rw [place, ← Nat.testBit_div_two_pow, same, Nat.testBit_div_two_pow]

theorem unmapped_of_mapped {a : Address} (six : a.family = .v6)
    (mapped : a.number / Family.v4.size = mappedHigh) : a.unmapped = .ofNat .v4 a.number := by
  rw [unmapped, six]
  exact if_pos mapped

theorem unmapped_of_not_mapped {a : Address} (other : a.number / Family.v4.size ≠ mappedHigh) :
    a.unmapped = a := by
  unfold unmapped
  split
  · rfl
  · exact if_neg other

end Address

namespace Block

variable {p q : Block} {a b : Address}

theorem first_le_last (p : Block) : p.first.number ≤ p.last.number := by
  have pos := p.size_pos
  rw [number_last, first]
  omega

theorem contains_iff_div : p.contains a = true ↔
    a.family = p.family ∧ a.number / p.size = p.network.number / p.size := by
  obtain ⟨k, hk⟩ := p.size_dvd_number
  rw [contains_iff_alignDown, alignDown, hk, Nat.mul_div_cancel_left k p.size_pos,
    Nat.mul_comm p.size k, Nat.mul_left_inj p.size_pos.ne']

/-- A block contains the addresses between its first and its last. -/
theorem contains_iff : p.contains a = true ↔
    a.family = p.family ∧ p.first.number ≤ a.number ∧ a.number ≤ p.last.number := by
  obtain ⟨k, hk⟩ := p.size_dvd_number
  rw [contains_iff_div, number_last, first, hk, Nat.mul_div_cancel_left k p.size_pos,
    Nat.div_eq_iff p.size_pos, Nat.mul_comm k]

/-- A block contains the addresses that begin with the bits of its network. -/
theorem contains_iff_bits : p.contains a = true ↔
    a.family = p.family ∧ ∀ i < p.length, a.bit i = p.network.bit i := by
  rw [contains_iff_div]
  refine and_congr_right fun family => ?_
  rw [Address.bits_agree_iff family (family ▸ p.length_le), family]
  rfl

/-- A block that contains both ends of a range contains all of it. -/
theorem contains_ends_iff (fa : a.family = p.family) (fb : b.family = p.family)
    (ordered : a.number ≤ b.number) :
    (p.contains a && p.contains b) = true ↔
      ∀ n, a.number ≤ n → n ≤ b.number → p.first.number ≤ n ∧ n ≤ p.last.number := by
  rw [Bool.and_eq_true, contains_iff, contains_iff]
  constructor
  · rintro ⟨⟨_, above, _⟩, _, _, below⟩ n hn hn'
    exact ⟨above.trans hn, hn'.trans below⟩
  · intro between
    exact ⟨⟨fa, between a.number le_rfl ordered⟩, fb, between b.number ordered le_rfl⟩

theorem last_div (p : Block) {l : Nat} (shorter : l ≤ p.length) :
    p.last.number / blockSize p.family l = p.first.number / blockSize p.family l := by
  obtain ⟨t, ht⟩ : p.size ∣ blockSize p.family l := blockSize_dvd_blockSize shorter
  obtain ⟨k, hk⟩ := p.size_dvd_number
  have pos := p.size_pos
  have quotient : (p.size * k + p.size - 1) / p.size = k := by
    rw [Nat.add_sub_assoc pos, Nat.mul_add_div pos, Nat.div_eq_of_lt (by omega), Nat.add_zero]
  rw [number_last, first, ht, ← Nat.div_div_eq_div_mul, ← Nat.div_div_eq_div_mul, hk, quotient,
    Nat.mul_div_cancel_left k pos]

theorem size_le_of_contains_ends (hfirst : p.contains q.first = true)
    (hlast : p.contains q.last = true) : q.size ≤ p.size := by
  have low : p.network.number ≤ q.network.number := (contains_iff.1 hfirst).2.1
  have high := (contains_iff.1 hlast).2.2
  have pos := q.size_pos
  have pos' := p.size_pos
  rw [number_last, number_last] at high
  omega

/-- Of two blocks of one family, the one that contains both ends of the other is no longer and
    begins as the other does. -/
theorem contains_block_iff (family : q.family = p.family) :
    (p.contains q.first && p.contains q.last) = true ↔
      p.length ≤ q.length ∧ ∀ i < p.length, q.network.bit i = p.network.bit i := by
  rw [Bool.and_eq_true]
  constructor
  · rintro ⟨hfirst, hlast⟩
    have fits := size_le_of_contains_ends hfirst hlast
    rw [size, family] at fits
    exact ⟨(blockSize_le_iff p.length_le).1 fits, (contains_iff_bits.1 hfirst).2⟩
  · rintro ⟨shorter, agree⟩
    have hfirst := contains_iff_bits.2 ⟨family, agree⟩
    refine ⟨hfirst, contains_iff_div.2 ⟨family, ?_⟩⟩
    have same := q.last_div shorter
    rw [family] at same
    exact same.trans (contains_iff_div.1 hfirst).2

theorem size_around (a : Address) (l : Nat) : (around a l).size = blockSize a.family l := by
  change blockSize a.family (Nat.min l a.family.width) = blockSize a.family l
  unfold blockSize
  rw [show a.family.width - Nat.min l a.family.width = a.family.width - l by grind]

theorem contains_around {b : Address} {l : Nat} : (around a l).contains b = true ↔
    b.family = a.family ∧ b.number / blockSize a.family l = a.number / blockSize a.family l := by
  rw [contains_iff_div, size_around]
  have pos := blockSize_pos a.family l
  rw [number_around, alignDown, Nat.mul_div_cancel _ pos]
  rfl

theorem unmapped_of_mapped (six : p.family = .v6)
    (mapped : 96 ≤ p.length ∧ p.network.number / Family.v4.size = Address.mappedHigh) :
    p.unmapped = around (.ofNat .v4 p.network.number) (p.length - 96) := by
  rw [unmapped_eq_ofNat six, if_pos mapped]

theorem blockSize_of_mapped (six : p.family = .v6) (long : 96 ≤ p.length) :
    blockSize .v4 (p.length - 96) = p.size := by
  have width : p.length ≤ 128 := by
    have fits := p.length_le
    rwa [show p.network.family = .v6 from six] at fits
  rw [size, six, blockSize, blockSize]
  exact congrArg (Nat.pow 2) (show 32 - (p.length - 96) = 128 - p.length by omega)

end Block

end MarkedValues.Net
