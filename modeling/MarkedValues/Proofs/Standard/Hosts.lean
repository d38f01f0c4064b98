import MarkedValues.Proofs.Standard.EqualParts

/-!
Numbered hosts. The addresses of a block with `h` host bits are counted by the remainders modulo
`2 ^ h`: from the first address on by the natural numbers, from the last one back by the negative
ones, down to `-2 ^ h`.
-/
namespace MarkedValues

open Net (Address Block Word shiftLeft?)

variable {engine : Regex.Engine}

namespace Net.Block

theorem size_eq (p : Block) : p.size = 2 ^ p.hostBits := rfl

theorem cast_size (p : Block) : (p.size : Int) = 2 ^ p.hostBits := by
  rw [size_eq]
  exact Int.natCast_pow 2 p.hostBits

end Net.Block

namespace Standard

variable {outer : Block} {k k' : Int}

/-- The number of a host in reach from either end, as the offset from the first address. -/
theorem hostOffset?_eq_some_iff {w : Word} (small : k.natAbs < 2 ^ 128) :
    hostOffset? outer k = some w ↔
      -(outer.size : Int) ≤ k ∧ k < outer.size ∧ (w.toNat : Int) = k % outer.size := by
  have steps : (BitVec.ofNat 128 k.natAbs).toNat = k.natAbs := Nat.mod_eq_of_lt small
  rw [hostOffset?]
  by_cases natural : 0 ≤ k
  · have past : (shiftLeft? 1 outer.hostBits).any (· ≤ BitVec.ofNat 128 k.natAbs) = true ↔
        outer.size ≤ k := by
      obtain ⟨c, capacity, size⟩ | ⟨capacity, size⟩ := outer.capacity_cases
      · rw [capacity, Option.any_some, decide_eq_true_iff, BitVec.le_def, steps, size]
        omega
      · rw [capacity, Option.any_none]
        exact iff_of_false nofun (by omega)
    rw [if_pos natural, Option.ite_none_left_eq_some, past, Option.some.injEq, ← BitVec.toNat_inj,
      steps]
    have remainder (inside : k < outer.size) := Int.emod_eq_of_lt natural inside
    constructor
    · rintro ⟨inside, eq⟩
      have := remainder (by omega)
      omega
    · rintro ⟨_, inside, eq⟩
      have := remainder inside
      omega
  · -- The remainder of a negative number in reach is that number counted from the end.
    have remainder (reach : -(outer.size : Int) ≤ k) : k % outer.size = k + outer.size := by
      rw [← Int.add_emod_right]
      exact Int.emod_eq_of_lt (by omega) (by omega)
    rw [if_neg natural]
    obtain ⟨c, capacity, size⟩ | ⟨capacity, size⟩ := outer.capacity_cases
    · have fits := c.isLt
      rw [capacity]
      simp only [Option.ite_none_left_eq_some, Option.some.injEq, ← BitVec.toNat_inj,
        BitVec.lt_def, BitVec.toNat_sub, steps, size]
      constructor
      · rintro ⟨reach, eq⟩
        have := remainder (by omega)
        omega
      · rintro ⟨reach, _, eq⟩
        have := remainder reach
        omega
    · have zero : (0 : Word).toNat = 0 := rfl
      have := remainder (by omega)
      rw [capacity, Option.some.injEq, ← BitVec.toNat_inj, BitVec.toNat_sub, steps]
      omega

theorem hostOffset?_lt {w : Word} (small : k.natAbs < 2 ^ 128) (h : hostOffset? outer k = some w) :
    w.toNat < outer.size := by
  obtain ⟨_, _, remainder⟩ := (hostOffset?_eq_some_iff small).1 h
  have bound := Int.emod_lt_of_pos k (Int.natCast_pos.2 outer.size_pos)
  omega

/-- The address of a host of a block, counted by the remainder of its number. -/
structure IsHost (outer : Block) (k : Int) (a : Address) : Prop where
  family : a.family = outer.family
  number : (a.number : Int) = outer.first.number + k % 2 ^ outer.hostBits

namespace IsHost

variable {a : Address}

theorem remainder_bounds (outer : Block) (k : Int) :
    0 ≤ k % 2 ^ outer.hostBits ∧ k % 2 ^ outer.hostBits < outer.size := by
  have positive : (0 : Int) < outer.size := Int.natCast_pos.2 outer.size_pos
  rw [← outer.cast_size]
  exact ⟨Int.emod_nonneg k positive.ne', Int.emod_lt_of_pos k positive⟩

theorem contains (h : IsHost outer k a) : outer.contains a = true := by
  obtain ⟨low, high⟩ := remainder_bounds outer k
  have number := h.number
  have last := outer.number_last
  have first : outer.first.number = outer.network.number := rfl
  apply Net.Block.contains_iff.2
  refine ⟨h.family, ?_, ?_⟩ <;> omega

theorem injective (h : IsHost outer k a) (h' : IsHost outer k' a) (natural : 0 ≤ k)
    (inside : k < 2 ^ outer.hostBits) (natural' : 0 ≤ k') (inside' : k' < 2 ^ outer.hostBits) :
    k = k' := by
  have number := h.number
  have number' := h'.number
  rw [Int.emod_eq_of_lt natural inside] at number
  rw [Int.emod_eq_of_lt natural' inside'] at number'
  omega

theorem number_of_neg {k : Nat} (h : IsHost outer (-(k : Int)) a) (positive : 1 ≤ k)
    (reach : k ≤ 2 ^ outer.hostBits) : a.number + k = outer.last.number + 1 := by
  have number := h.number
  have last := outer.number_last
  have first : outer.first.number = outer.network.number := rfl
  rw [← outer.size_eq] at reach
  have remainder : (-k : Int) % outer.size = -k + outer.size := by
    rw [← Int.add_emod_right]
    exact Int.emod_eq_of_lt (by omega) (by omega)
  rw [← outer.cast_size, remainder] at number
  omega

end IsHost

theorem isHost_ofWord {w : Word} (small : k.natAbs < 2 ^ 128) (h : hostOffset? outer k = some w) :
    IsHost outer k (.ofWord outer.family (outer.network.word ||| w)) := by
  obtain ⟨_, _, eq⟩ := (hostOffset?_eq_some_iff small).1 h
  have inside := hostOffset?_lt small h
  have fits := outer.end_le
  rw [outer.cast_size] at eq
  have number : (outer.network.number + w.toNat) % outer.family.size =
      outer.network.number + w.toNat :=
    Nat.mod_eq_of_lt (by omega)
  rw [outer.ofWord_or inside]
  constructor
  · rfl
  · rw [Address.number_ofNat, number, Int.natCast_add, eq]
    rfl

theorem ofText?_addressText (a : Address) : Address.ofText? (addressText a).toList = some a := by
  rw [addressText, String.toList_ofList]
  exact a.ofText?_text

theorem addressText_injective {a a' : Address} (h : addressText a = addressText a') : a = a' := by
  have read := ofText?_addressText a
  rw [h, ofText?_addressText] at read
  exact (Option.some.inj read).symm

section

variable (ctx : Context) {p : String} (read : blockOf? p = some outer) {n : Number} {v : Value}

include read

/-- A numbered host is given exactly for the numbers that reach no further than the block. -/
theorem call_cidrhost_isOk_iff (whole : n.toInt? = some k) :
    (∃ v, (table engine).call ctx "cidrhost" [.string p, .number n] = .ok v) ↔
      -2 ^ outer.hostBits ≤ k ∧ k < 2 ^ outer.hostBits := by
  rw [← outer.cast_size]
  constructor
  · rintro ⟨v, called⟩
    obtain ⟨host, offset, whole', place, _⟩ := (call_cidrhost ctx read).1 called
    obtain rfl := Option.some.inj (whole.symm.trans whole')
    obtain ⟨low, high, _⟩ := (hostOffset?_eq_some_iff (Number.natAbs_lt_of_toInt? whole)).1 place
    exact ⟨low, high⟩
  · rintro ⟨low, high⟩
    obtain ⟨natural, inside⟩ := IsHost.remainder_bounds outer k
    rw [← outer.cast_size] at natural inside
    obtain ⟨offset, eq⟩ := Int.eq_ofNat_of_zero_le natural
    have word : (BitVec.ofNat 128 offset).toNat = offset := by
      have fits := outer.size_le_word
      exact Nat.mod_eq_of_lt (by omega)
    have place := (hostOffset?_eq_some_iff (Number.natAbs_lt_of_toInt? whole)).2
      ⟨low, high, (congrArg Nat.cast word).trans eq.symm⟩
    exact ⟨_, (call_cidrhost ctx read).2 ⟨k, _, whole, place, rfl⟩⟩

theorem exists_isHost (whole : n.toInt? = some k)
    (called : (table engine).call ctx "cidrhost" [.string p, .number n] = .ok v) :
    ∃ a, v = .string (addressText a) ∧ IsHost outer k a := by
  obtain ⟨host, offset, whole', place, rfl⟩ := (call_cidrhost ctx read).1 called
  obtain rfl := Option.some.inj (whole.symm.trans whole')
  exact ⟨_, rfl, isHost_ofWord (Number.natAbs_lt_of_toInt? whole) place⟩

end

/-- Of a block with `h` host bits the hosts from `-2 ^ h` up to `2 ^ h` are given, each as the
    address in the block that the remainder of its number counts. From zero on the addresses are all
    different, and negative numbers count from the end. -/
theorem cidrhost_counts (ctx : Context) {p : String} {outer : Block}
    (read : blockOf? p = some outer) :
    (∀ (n : Number) (k : Int), n.toInt? = some k →
      ((∃ v, (table engine).call ctx "cidrhost" [.string p, .number n] = .ok v) ↔
        -2 ^ outer.hostBits ≤ k ∧ k < 2 ^ outer.hostBits) ∧
      ∀ v, (table engine).call ctx "cidrhost" [.string p, .number n] = .ok v →
        ∃ a, v = .string (addressText a) ∧ Address.ofText? (addressText a).toList = some a ∧
          IsHost outer k a ∧ outer.contains a = true) ∧
    (∀ (n n' : Number) (k k' : Int) (v : Value), n.toInt? = some k → n'.toInt? = some k' →
      0 ≤ k → k < 2 ^ outer.hostBits → 0 ≤ k' → k' < 2 ^ outer.hostBits →
      (table engine).call ctx "cidrhost" [.string p, .number n] = .ok v →
      (table engine).call ctx "cidrhost" [.string p, .number n'] = .ok v → k = k') ∧
    ∀ (n : Number) (k : Nat), n.toInt? = some (-(k : Int)) → 1 ≤ k → k ≤ 2 ^ outer.hostBits →
      ∃ a, (table engine).call ctx "cidrhost" [.string p, .number n] =
          .ok (.string (addressText a)) ∧
        a.family = outer.family ∧ a.number + k = outer.last.number + 1 := by
  refine ⟨fun n k whole => ⟨?_, ?_⟩, ?_, ?_⟩
  · exact call_cidrhost_isOk_iff ctx read whole
  · intro v called
    obtain ⟨a, rfl, host⟩ := exists_isHost ctx read whole called
    exact ⟨a, rfl, ofText?_addressText a, host, host.contains⟩
  · intro n n' k k' v whole whole' natural inside natural' inside' called called'
    obtain ⟨a, rfl, host⟩ := exists_isHost ctx read whole called
    obtain ⟨a', eq, host'⟩ := exists_isHost ctx read whole' called'
    obtain rfl := addressText_injective (Option.some.inj (congrArg Value.string? eq))
    exact host.injective host' natural inside natural' inside'
  · intro n k whole positive reach
    have some : -2 ^ outer.hostBits ≤ -(k : Int) ∧ -(k : Int) < 2 ^ outer.hostBits := by
      rw [← outer.cast_size]
      rw [← outer.size_eq] at reach
      omega
    obtain ⟨v, called⟩ := (call_cidrhost_isOk_iff ctx read whole).2 some
    obtain ⟨a, rfl, host⟩ := exists_isHost ctx read whole called
    exact ⟨a, called, host.family, host.number_of_neg positive reach⟩

def fourHosts : Block := .around (.ofNat .v4 0x0A000004) 30

theorem hosts_are_counted :
    blockOf? "10.0.0.4/30" = some fourHosts ∧ blockOf? "::/0" = some (.around (.ofNat .v6 0) 0) ∧
    standardTable.call {} "cidrhost" [.string "10.0.0.4/30", .number (.ofInt (-4))] =
      .ok (.string "10.0.0.4") ∧
    (¬ ∃ v, standardTable.call {} "cidrhost" [.string "10.0.0.4/30", .number (.ofInt 4)] = .ok v) ∧
    standardTable.call {} "cidrhost" [.string "::/0", .number (.ofInt (-1))] =
      .ok (.string "ffff:ffff:ffff:ffff:ffff:ffff:ffff:ffff") := by
  have four : blockOf? "10.0.0.4/30" = some fourHosts := by decide +kernel
  have all : blockOf? "::/0" = some (.around (.ofNat .v6 0) 0) := by decide +kernel
  have number {k : Int} (small : k.natAbs ≤ 4) : (Number.ofInt k).toInt? = some k :=
    Number.toInt?_ofInt (by omega)
  obtain ⟨counted, _, fromEnd⟩ := cidrhost_counts {} four
  obtain ⟨_, _, allFromEnd⟩ := cidrhost_counts {} all
  obtain ⟨a, first, family, back⟩ := fromEnd _ 4 (number (by decide)) (by decide) (by decide)
  obtain ⟨b, last, family', back'⟩ := allFromEnd _ 1 (number (by decide)) (by decide) (by decide)
  have begins : a = .ofNat .v4 0x0A000004 := by
    have ends : fourHosts.last.number = 0x0A000007 := by decide
    rw [ends] at back
    exact Address.eq_of_number family (Nat.add_right_cancel back)
  have ends : b = Block.last (.around (.ofNat .v6 0) 0) :=
    Address.eq_of_number family' (Nat.add_right_cancel back')
  have text : addressText (.ofNat .v4 0x0A000004) = "10.0.0.4" := by decide +kernel
  have text' : addressText (Block.last (.around (.ofNat .v6 0) 0)) =
      "ffff:ffff:ffff:ffff:ffff:ffff:ffff:ffff" := by decide +kernel
  rw [begins, text] at first
  rw [ends, text'] at last
  exact ⟨four, all, first, (counted _ 4 (number (by decide))).1.not.2 (by decide), last⟩

end Standard

end MarkedValues
