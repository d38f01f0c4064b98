import MarkedValues.Proofs.Standard.Subnets

/-!
Subnets that are handed out one after the other. They never overlap, stay inside the block and are
packed as tightly as their alignment allows, and except at the beginning of a family they run out
only when the block does.
-/
namespace MarkedValues.Standard

open Net (Address Block Packed greedy)

variable {engine : Regex.Engine}

/-- Blocks as they are handed out for numbers of bits: of the lengths asked for, inside the block
    they are cut from, the first at its beginning and each later one at the first place behind the
    one before that its own length is aligned to. -/
structure Allocation (outer : Block) (ns : List Number) (blocks : List Block) : Prop where
  lengths : List.Forall₂ (fun n b => ∃ k, Extends n k ∧ b.length = outer.length + k) ns blocks
  aligned : ∀ b ∈ blocks, 2 ^ (b.family.width - b.length) ∣ b.first.number
  inside : ∀ b ∈ blocks, (Extent.block b).Within (.block outer)
  ascending : blocks.Pairwise fun b c => b.last.number < c.first.number
  first : ∀ b ∈ blocks.head?, b.first = outer.first
  tight : blocks.IsChain fun b c =>
    IsLeast {n | b.last.number < n ∧ 2 ^ (c.family.width - c.length) ∣ n} c.first.number

section

variable {outer : Block} {ks : List Nat} {blocks : List Block}

theorem lengths_of_packed {ns : List Number} (extensions : List.Forall₂ Extends ns ks) {start : Nat}
    (packed : Packed outer start (ks.map (outer.length + ·)) blocks) :
    List.Forall₂ (fun n b => ∃ k, Extends n k ∧ b.length = outer.length + k) ns blocks := by
  have wanted : List.Forall₂ (fun n l => ∃ k, Extends n k ∧ l = outer.length + k) ns
      (ks.map (outer.length + ·)) :=
    List.forall₂_map_right_iff.2 (extensions.imp fun _ k extension => ⟨k, extension, rfl⟩)
  rwa [← packed.map_length, List.forall₂_map_right_iff] at wanted

theorem first_of_packed (packed : Packed outer outer.network.number (ks.map (outer.length + ·)) blocks)
    {b : Block} (hb : b ∈ blocks.head?) : b.first = outer.first := by
  have member := List.mem_of_mem_head? hb
  have family := (packed.inside b member).1
  have longer : outer.length ≤ b.length := by
    have length := List.mem_map_of_mem (f := Block.length) member
    rw [packed.map_length] at length
    obtain ⟨k, _, length⟩ := List.mem_map.1 length
    exact length ▸ Nat.le_add_right ..
  have aligned : b.size ∣ outer.network.number := by
    rw [Block.size, family]
    exact (Net.blockSize_dvd_blockSize longer).trans outer.size_dvd_number
  have place := packed.head hb
  exact Address.eq_of_number family (Nat.le_antisymm (place.2 ⟨le_rfl, aligned⟩) place.1.1)

theorem allocation_of_packed {ns : List Number} (extensions : List.Forall₂ Extends ns ks)
    (packed : Packed outer outer.network.number (ks.map (outer.length + ·)) blocks) :
    Allocation outer ns blocks where
  lengths := lengths_of_packed extensions packed
  aligned b _ := b.aligned
  inside b hb := by
    obtain ⟨family, above, below⟩ := packed.inside b hb
    exact within_of_stop_le family above below
  ascending := packed.pairwise.imp fun {b c} apart => by
    rw [Block.stop_eq] at apart
    exact apart
  first _ := first_of_packed packed
  tight := packed.isChain.imp fun {b c} place => by
    rw [Block.stop_eq] at place
    exact place

end

/-- Every subnet that is handed out lies inside the block and behind the subnets before it, as close
    to them as its length allows, and its text reads as just this block. -/
theorem cidrsubnets_allocates (ctx : Context) {p : String} {outer : Block}
    (read : blockOf? p = some outer) {ns : List Number} {v : Value}
    (called : (table engine).call ctx "cidrsubnets" (.string p :: ns.map .number) = .ok v) :
    ∃ blocks, v = .stringList (blocks.map blockText) ∧
      (∀ b ∈ blocks, blockOf? (blockText b) = some b) ∧ Allocation outer ns blocks := by
  obtain ⟨ks, blocks, extensions, _, packed, rfl⟩ := (call_cidrsubnets ctx read).1 called
  exact ⟨blocks, rfl, fun b _ => blockOf?_blockText b, allocation_of_packed extensions packed⟩

def unevenBits : List Number := [.ofInt 1, .ofInt 8, .ofInt 2]

def sharesOfTens : List Block :=
  [.around (.ofNat .v4 0x0A000000) 9, .around (.ofNat .v4 0x0A800000) 16,
    .around (.ofNat .v4 0x0AC00000) 10]

theorem tens_are_shared :
    blockOf? "10.0.0.0/8" = some tens ∧
    standardTable.call {} "cidrsubnets" (.string "10.0.0.0/8" :: unevenBits.map .number) =
      .ok (.stringList ["10.0.0.0/9", "10.128.0.0/16", "10.192.0.0/10"]) ∧
    ∃ blocks, Value.stringList ["10.0.0.0/9", "10.128.0.0/16", "10.192.0.0/10"] =
        .stringList (blocks.map blockText) ∧
      (∀ b ∈ blocks, blockOf? (blockText b) = some b) ∧ Allocation tens unevenBits blocks := by
  have read : blockOf? "10.0.0.0/8" = some tens := by decide +kernel
  have extensions : List.Forall₂ Extends unevenBits [1, 8, 2] :=
    .cons (extends_ofInt (by decide) (by decide)) (.cons (extends_ofInt (by decide) (by decide))
      (.cons (extends_ofInt (by decide) (by decide)) .nil))
  have packed : Packed tens tens.network.number [9, 16, 10] sharesOfTens := by
    refine (Net.packed_cons (by decide)).2 ⟨by decide, _, rfl, ?_⟩
    refine (Net.packed_cons (by decide)).2 ⟨by decide, _, rfl, ?_⟩
    exact (Net.packed_cons (by decide)).2 ⟨by decide, _, rfl, .nil _⟩
  have texts : ["10.0.0.0/9", "10.128.0.0/16", "10.192.0.0/10"] = sharesOfTens.map blockText := by
    decide +kernel
  have called := (@call_cidrsubnets Regex.automaton {} _ _ read _ _).2
    ⟨[1, 8, 2], sharesOfTens, extensions, .inr (by decide), packed, rfl⟩
  rw [← texts] at called
  exact ⟨read, called, cidrsubnets_allocates {} read called⟩

/-- A block that does not begin its family runs out of room only when the subnets, put down one
    behind the other in the order asked for, do not fit into it. A block that begins its family has
    no block in front, and none of its room is found. -/
theorem cidrsubnets_exhausts (ctx : Context) {p : String} {outer : Block}
    (read : blockOf? p = some outer) {ns : List Number} {ks : List Nat}
    (extensions : List.Forall₂ Extends ns ks)
    (short : ∀ k ∈ ks, outer.length + k ≤ outer.family.width) :
    (outer.first.number ≠ 0 →
      ((∃ v, (table engine).call ctx "cidrsubnets" (.string p :: ns.map .number) = .ok v) ↔
        ∀ x ∈ greedy outer.first.number
            (ks.map fun k => 2 ^ (outer.family.width - (outer.length + k))),
          outer.first.number ≤ x.1 ∧ x.2 ≤ outer.last.number + 1)) ∧
    (outer.first.number = 0 →
      (ks = [] → (table engine).call ctx "cidrsubnets" (.string p :: ns.map .number) =
        .ok (.stringList [])) ∧
      ∀ k ∈ ks.head?, (table engine).call ctx "cidrsubnets" (.string p :: ns.map .number) =
        .error ⟨.argument (noRoom (outer.length + k) (outer.previous (outer.length + k))), some 1,
          some "newbits"⟩) := by
  refine ⟨fun inner => ?_, fun zero => ⟨?_, fun k hk => ?_⟩⟩
  · have fits : ∀ l ∈ ks.map (outer.length + ·), l ≤ outer.family.width :=
      List.forall_mem_map.2 short
    have room := Net.exists_packed_iff fits (Nat.le_refl outer.network.number)
    rw [List.map_map, Block.stop_eq] at room
    refine Iff.trans ?_ room
    constructor
    · rintro ⟨v, called⟩
      obtain ⟨ks', blocks, extensions', _, packed, _⟩ := (call_cidrsubnets ctx read).1 called
      cases rightUnique_extends.forall₂ extensions extensions'
      exact ⟨blocks, packed⟩
    · rintro ⟨blocks, packed⟩
      exact ⟨_, (call_cidrsubnets ctx read).2 ⟨ks, blocks, extensions, .inr inner, packed, rfl⟩⟩
  · rintro rfl
    cases extensions
    exact (call_cidrsubnets ctx read).2 ⟨[], [], .nil, .inl rfl, .nil _, rfl⟩
  · cases extensions with
    | nil => cases hk
    | cons extension _ =>
      cases hk
      exact call_cidrsubnets_of_zero ctx read zero extension (short _ List.mem_cons_self) _

def zeros : Block := .around (.ofNat .v4 0) 8

/-- There are two halves of 10.0.0.0/8 and no three. There is not one of 0.0.0.0/8, though it would
    fit: the walk begins at the other end of the family. -/
theorem zeros_are_not_halved :
    blockOf? "10.0.0.0/8" = some tens ∧ blockOf? "0.0.0.0/8" = some zeros ∧
    (∃ v, standardTable.call {} "cidrsubnets"
      (.string "10.0.0.0/8" :: (List.replicate 2 (Number.ofInt 1)).map .number) = .ok v) ∧
    (¬ ∃ v, standardTable.call {} "cidrsubnets"
      (.string "10.0.0.0/8" :: (List.replicate 3 (Number.ofInt 1)).map .number) = .ok v) ∧
    (∀ x ∈ greedy zeros.first.number [2 ^ 23],
      zeros.first.number ≤ x.1 ∧ x.2 ≤ zeros.last.number + 1) ∧
    standardTable.call {} "cidrsubnets" [.string "0.0.0.0/8", .number (.ofInt 1)] =
      .error ⟨.argument ("not enough remaining address space for a subnet with a prefix of 9 bits " ++
        "after 255.128.0.0/9"), some 1, some "newbits"⟩ := by
  have read : blockOf? "10.0.0.0/8" = some tens := by decide +kernel
  have zero : blockOf? "0.0.0.0/8" = some zeros := by decide +kernel
  have halves := extends_replicate (extends_ofInt (k := 1) le_rfl (by decide))
  have two :=
    (@cidrsubnets_exhausts Regex.automaton {} _ _ read _ _ (halves 2) (by decide)).1 (by decide)
  have three :=
    (@cidrsubnets_exhausts Regex.automaton {} _ _ read _ _ (halves 3) (by decide)).1 (by decide)
  have alone := @cidrsubnets_exhausts Regex.automaton {} _ _ zero _ _ (halves 1) (by decide)
  have none := (alone.2 (by decide)).2 1 rfl
  refine ⟨read, zero, two.2 (by decide), fun called => ?_, by decide, ?_⟩
  · exact absurd (three.1 called) (by decide)
  · have said : noRoom 9 (zeros.previous 9) =
        "not enough remaining address space for a subnet with a prefix of 9 bits " ++
          "after 255.128.0.0/9" := by decide +kernel
    exact said ▸ none

end MarkedValues.Standard
