import MarkedValues.Proofs.Net.Allocation

/-!
The IPv6 addresses that stand for IPv4 addresses. They fill one block. Bringing an address or a
block inside it to IPv4 moves it down to the beginning of that family and leaves its size as it is;
nothing else changes.
-/
namespace MarkedValues.Net

def mappedBase : Nat := Address.mappedHigh * Family.v4.size

/-- The block ::ffff:0:0/96. -/
def mappedRange : Block := .around (.ofNat .v6 mappedBase) 96

theorem mappedRange_contains_iff {a : Address} : mappedRange.contains a = true ↔
    a.family = .v6 ∧ a.number / Family.v4.size = Address.mappedHigh := by
  have high : mappedBase % Family.v6.size / Family.v4.size = Address.mappedHigh := by decide +kernel
  rw [mappedRange, Block.contains_around, Address.number_ofNat, Address.family_ofNat]
  exact and_congr_right fun _ => iff_of_eq (congrArg (a.number / Family.v4.size = ·) high)

namespace Address

variable {a : Address}

theorem number_of_mapped (h : mappedRange.contains a = true) :
    a.unmapped.family = .v4 ∧ a.number = mappedBase + a.unmapped.number := by
  obtain ⟨six, high⟩ := mappedRange_contains_iff.1 h
  have parts := Nat.div_add_mod' a.number Family.v4.size
  rw [unmapped_of_mapped six high]
  refine ⟨rfl, ?_⟩
  rw [high] at parts
  exact parts.symm

theorem unmapped_of_not_contains (h : ¬ mappedRange.contains a = true) : a.unmapped = a := by
  by_cases six : a.family = .v6
  · exact unmapped_of_not_mapped fun high => h (mappedRange_contains_iff.2 ⟨six, high⟩)
  · unfold unmapped
    split
    · rfl
    · next family => exact absurd family six

end Address

namespace Block

variable {p : Block}

theorem contains_first (p : Block) : p.contains p.first = true :=
  contains_iff.2 ⟨rfl, le_rfl, p.first_le_last⟩

theorem number_of_mapped (long : 96 ≤ p.length) (h : mappedRange.contains p.first = true) :
    p.unmapped.family = .v4 ∧ p.network.number = mappedBase + p.unmapped.network.number ∧
      p.unmapped.size = p.size := by
  obtain ⟨six, high⟩ := mappedRange_contains_iff.1 h
  have parts := Nat.div_add_mod' p.network.number Family.v4.size
  have size := blockSize_of_mapped six long
  have aligned : p.size ∣ p.network.number % Family.v4.size :=
    (Nat.dvd_mod_iff (size ▸ blockSize_dvd_size ..)).2 p.size_dvd_number
  have number : (around (.ofNat .v4 p.network.number) (p.length - 96)).network.number =
      p.network.number % Family.v4.size := by
    rw [number_around, Address.number_ofNat, Address.family_ofNat, size, alignDown,
      Nat.div_mul_cancel aligned]
  rw [unmapped_of_mapped six ⟨long, high⟩, number]
  refine ⟨rfl, ?_, (size_around ..).trans size⟩
  rw [first] at high
  rw [high] at parts
  exact parts.symm

theorem unmapped_of_not_mapped (h : ¬ (96 ≤ p.length ∧ mappedRange.contains p.first = true)) :
    p.unmapped = p := by
  cases family : p.family with
  | v4 => rw [unmapped, family]
  | v6 =>
    rw [unmapped_eq_ofNat family]
    exact if_neg fun mapped => h ⟨mapped.1, mappedRange_contains_iff.2 ⟨family, mapped.2⟩⟩

end Block

end MarkedValues.Net
