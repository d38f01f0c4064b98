import MarkedValues.Proofs.Standard.Subnets

/-!
Numbered subnets. A block is cut into a power of two of equal parts, which follow each other in the
order of their numbers. A part of a part is a part of the whole, and parts of one length that are
handed out one after the other come in the same order.
-/
namespace MarkedValues.Standard

open Net (Address Block Packed blockSize)

variable {engine : Regex.Engine}

/-- One of the `2 ^ k` equal parts of a block, counted from zero. -/
structure IsPart (outer : Block) (k m : Nat) (part : Block) : Prop where
  family : part.family = outer.family
  length : part.length = outer.length + k
  number : part.first.number = outer.first.number + m * 2 ^ (outer.family.width - outer.length - k)

theorem size_eq_parts {outer : Block} {k : Nat} (short : outer.length + k ≤ outer.family.width) :
    outer.size = 2 ^ k * 2 ^ (outer.family.width - outer.length - k) := by
  rw [← Nat.pow_add, Nat.add_sub_of_le (by omega)]
  rfl

namespace IsPart

section

variable {outer part part' : Block} {k m m' : Nat}

theorem unique (h : IsPart outer k m part) (h' : IsPart outer k m part') : part = part' :=
  Block.eq_of_parts (h.family.trans h'.family.symm) (h.length.trans h'.length.symm)
    (h.number.trans h'.number.symm)

theorem short (h : IsPart outer k m part) : outer.length + k ≤ outer.family.width := by
  rw [← h.length, ← h.family]
  exact part.length_le

theorem size (h : IsPart outer k m part) :
    part.size = 2 ^ (outer.family.width - outer.length - k) := by
  rw [Block.size, h.family, h.length, Nat.sub_sub]
  rfl

theorem stop (h : IsPart outer k m part) :
    part.stop = outer.first.number + (m + 1) * 2 ^ (outer.family.width - outer.length - k) := by
  have number : part.network.number = _ := h.number
  rw [Block.stop, number, h.size, Nat.succ_mul, Nat.add_assoc]

theorem index {a : Address} (h : IsPart outer k m part) (ha : part.contains a = true) :
    (a.number - outer.first.number) / 2 ^ (outer.family.width - outer.length - k) = m := by
  obtain ⟨_, low, high⟩ := Net.Block.contains_iff.1 ha
  have stop := h.stop
  rw [h.number] at low
  rw [Block.stop_eq] at stop
  exact Nat.div_eq_of_lt_le (by omega) (by omega)

theorem disjoint (h : IsPart outer k m part) (h' : IsPart outer k m' part') (ne : m ≠ m')
    (a : Address) : ¬ (part.contains a = true ∧ part'.contains a = true) :=
  fun both => ne ((h.index both.1).symm.trans (h'.index both.2))

/-- The parts fill the block and no more. -/
theorem lt_iff (h : IsPart outer k m part) : m < 2 ^ k ↔ part.stop ≤ outer.stop := by
  have positive := Nat.two_pow_pos (outer.family.width - outer.length - k)
  rw [h.stop, Block.stop, Block.first, size_eq_parts h.short, Nat.add_le_add_iff_left,
    Nat.mul_le_mul_right_iff positive, Nat.succ_le_iff]

end

/-- A part of a part is a part of the whole. -/
theorem comp {outer inner part : Block} {a b x y : Nat} (h : IsPart outer a x inner)
    (g : IsPart inner b y part) : IsPart outer (a + b) (x * 2 ^ b + y) part := by
  have family := h.family
  have length := h.length
  have short := g.short
  rw [family, length] at short
  refine ⟨g.family.trans family, ?_, ?_⟩
  · rw [g.length, length, Nat.add_assoc]
  · have inExp : outer.family.width - outer.length - a =
        b + (outer.family.width - outer.length - (a + b)) := by omega
    have outExp : outer.family.width - (outer.length + a) - b =
        outer.family.width - outer.length - (a + b) := by omega
    rw [g.number, h.number, family, length, inExp, outExp, Nat.pow_add, Nat.add_mul, Nat.mul_assoc,
      Nat.add_assoc]

end IsPart

section

variable {outer : Block} {k m : Nat}

theorem isPart_subnet (short : outer.length + k ≤ outer.family.width) (small : m < 2 ^ k) :
    IsPart outer k m (subnet outer k (.ofNat 128 m)) := by
  have exponent : outer.family.width - (outer.length + k) = outer.family.width - outer.length - k :=
    Nat.sub_add_eq ..
  have step : blockSize outer.family (outer.length + k) =
      2 ^ (outer.family.width - outer.length - k) := by
    rw [← exponent]
    rfl
  have inside : m * blockSize outer.family (outer.length + k) < outer.size := by
    rw [size_eq_parts short, step]
    exact Nat.mul_lt_mul_of_pos_right small (Nat.two_pow_pos _)
  have aligned : blockSize outer.family (outer.length + k) ∣
      outer.network.number + m * blockSize outer.family (outer.length + k) :=
    Nat.dvd_add ((Net.blockSize_dvd_blockSize (Nat.le_add_right ..)).trans outer.size_dvd_number)
      (Nat.dvd_mul_left ..)
  have word : (BitVec.ofNat 128 m).toNat = m := by
    have positive := Net.blockSize_pos outer.family (outer.length + k)
    have few := (Nat.le_mul_of_pos_right m positive).trans_lt inside
    exact Nat.mod_eq_of_lt (few.trans_le outer.size_le_word)
  -- The number is moved to the bits below the block's own.
  have place : ((Net.shiftLeft? (.ofNat 128 m)
      (outer.family.width - (outer.length + k))).getD 0).toNat =
      m * blockSize outer.family (outer.length + k) := by
    rw [Net.toNat_shiftLeft?, word]
    · rfl
    · rw [word]
      exact inside.trans_le outer.size_le_word
  have within := (Nat.add_lt_add_left inside _).trans_le outer.end_le
  rw [subnet, outer.ofWord_or (place ▸ inside), place]
  refine ⟨rfl, Block.length_around_ofNat short, ?_⟩
  rw [← step]
  exact Block.number_around_ofNat within aligned

/-- Blocks of one length that are packed from the beginning on are the parts in their order. -/
theorem isPart_of_packed {count : Nat} {blocks : List Block}
    (packed : Packed outer outer.network.number (List.replicate count (outer.length + k)) blocks)
    {part : Block} (hpart : blocks[m]? = some part) : IsPart outer k m part := by
  have member := List.mem_of_getElem? hpart
  have length : part.length ∈ List.replicate count (outer.length + k) :=
    packed.map_length ▸ List.mem_map_of_mem member
  refine ⟨(packed.inside part member).1, List.eq_of_mem_replicate length, ?_⟩
  have aligned := (Net.blockSize_dvd_blockSize (Nat.le_add_right _ k)).trans outer.size_dvd_number
  rw [Nat.sub_sub]
  exact packed.number_of_replicate aligned hpart

end

section

variable (ctx : Context) {p : String} {outer : Block} (read : blockOf? p = some outer)
  {nb num : Number} {v : Value}

include read

theorem call_cidrsubnet_isPart :
    (table engine).call ctx "cidrsubnet" [.string p, .number nb, .number num] = .ok v ↔
      ∃ k m : Nat, nb.IsInt k ∧ num.IsInt m ∧ m < 2 ^ k ∧ m < 2 ^ 63 ∧
        ∃ part, IsPart outer k m part ∧ v = .string (blockText part) := by
  have width := outer.family.width_le
  have limit : Number.intLimit = 2 ^ 63 := by decide
  rw [call_cidrsubnet ctx read]
  refine exists_congr fun k => exists_congr fun m => ?_
  rw [Number.toInt?_eq_some_iff, Number.toInt?_eq_some_iff, limit]
  constructor
  · rintro ⟨⟨hk, _, _⟩, ⟨hm, _, low⟩, short, small, eq⟩
    exact ⟨hk, hm, small, by omega, _, isPart_subnet short small, eq⟩
  · rintro ⟨hk, hm, small, low, part, hpart, rfl⟩
    have short := hpart.short
    rw [hpart.unique (isPart_subnet short small)]
    exact ⟨⟨hk, by omega, by omega⟩, ⟨hm, by omega, by omega⟩, short, small, rfl⟩

/-- When a numbered subnet is given, for whole numbers of any sign and size, and which. -/
theorem call_cidrsubnet_of_isInt {k m : Int} (hk : nb.IsInt k) (hm : num.IsInt m) :
    ((∃ v, (table engine).call ctx "cidrsubnet" [.string p, .number nb, .number num] = .ok v) ↔
      0 ≤ k ∧ outer.length + k ≤ outer.family.width ∧ 0 ≤ m ∧ m < 2 ^ k.toNat ∧ m < 2 ^ 63) ∧
    ∀ v, (table engine).call ctx "cidrsubnet" [.string p, .number nb, .number num] = .ok v →
      ∃ part, v = .string (blockText part) ∧ blockOf? (blockText part) = some part ∧
        IsPart outer k.toNat m.toNat part := by
  constructor
  · constructor
    · rintro ⟨v, called⟩
      obtain ⟨k', m', hk', hm', small, low, part, hpart, _⟩ :=
        (call_cidrsubnet_isPart ctx read).1 called
      obtain rfl := hk.unique hk'
      obtain rfl := hm.unique hm'
      have short := hpart.short
      rw [Int.toNat_natCast]
      exact ⟨by omega, by omega, by omega, by exact_mod_cast small, by omega⟩
    · rintro ⟨natural, short, natural', small, low⟩
      obtain ⟨k, rfl⟩ := Int.eq_ofNat_of_zero_le natural
      obtain ⟨m, rfl⟩ := Int.eq_ofNat_of_zero_le natural'
      have short : outer.length + k ≤ outer.family.width := by omega
      have small : m < 2 ^ k := by
        rw [Int.toNat_natCast] at small
        exact_mod_cast small
      exact ⟨_, (call_cidrsubnet_isPart ctx read).2
        ⟨k, m, hk, hm, small, by omega, _, isPart_subnet short small, rfl⟩⟩
  · intro v called
    obtain ⟨k', m', hk', hm', _, _, part, hpart, rfl⟩ := (call_cidrsubnet_isPart ctx read).1 called
    obtain rfl := hk.unique hk'
    obtain rfl := hm.unique hm'
    exact ⟨part, rfl, blockOf?_blockText part, hpart⟩

theorem call_cidrsubnet_apart {num' : Number} {m m' : Int} (hm : num.IsInt m) (hm' : num'.IsInt m')
    {s s' : String}
    (first : (table engine).call ctx "cidrsubnet" [.string p, .number nb, .number num] =
      .ok (.string s))
    (second : (table engine).call ctx "cidrsubnet" [.string p, .number nb, .number num'] =
      .ok (.string s')) :
    ∃ part part', blockOf? s = some part ∧ blockOf? s' = some part' ∧
      (m ≠ m' → ∀ a, ¬ (part.contains a = true ∧ part'.contains a = true)) ∧
      (m' = m + 1 → part'.first.number = part.last.number + 1) := by
  obtain ⟨k, i, hk, hi, _, _, part, hpart, eq⟩ := (call_cidrsubnet_isPart ctx read).1 first
  obtain ⟨l, j, hl, hj, _, _, part', hpart', eq'⟩ := (call_cidrsubnet_isPart ctx read).1 second
  cases eq
  cases eq'
  obtain rfl := Int.ofNat_inj.1 (hk.unique hl)
  obtain rfl := hm.unique hi
  obtain rfl := hm'.unique hj
  refine ⟨part, part', blockOf?_blockText part, blockOf?_blockText part', fun ne => ?_, fun next => ?_⟩
  · exact hpart.disjoint hpart' fun same => ne (congrArg Nat.cast same)
  · obtain rfl : j = i + 1 := by omega
    rw [← Block.stop_eq, hpart.stop, hpart'.number]

theorem call_cidrsubnets_replicate {count : Nat}
    (called : (table engine).call ctx "cidrsubnets"
      (.string p :: (List.replicate count nb).map .number) = .ok v) :
    ∃ texts, v = .stringList texts ∧ texts.length = count ∧
      ∀ (i : Nat) (num : Number) (s : String), num.IsInt i → texts[i]? = some s →
        (table engine).call ctx "cidrsubnet" [.string p, .number nb, .number num] =
          .ok (.string s) := by
  obtain ⟨ks, blocks, extensions, _, packed, rfl⟩ := (call_cidrsubnets ctx read).1 called
  have total : blocks.length = count := by
    rw [← List.length_map (f := Block.length), packed.map_length, List.length_map,
      ← extensions.length_eq, List.length_replicate]
  refine ⟨blocks.map blockText, rfl, by rw [List.length_map, total], fun i num s hnum hs => ?_⟩
  rw [List.getElem?_map, Option.map_eq_some_iff] at hs
  obtain ⟨part, hpart, rfl⟩ := hs
  have place : i < count := total ▸ (List.getElem?_eq_some_iff.1 hpart).1
  -- There is a number of bits, since there is a block.
  have asked : nb ∈ List.replicate count nb := List.mem_replicate.2 ⟨by omega, rfl⟩
  obtain ⟨k, _, extension⟩ := Lists.exists_of_mem_right extensions.flip asked
  obtain rfl := rightUnique_extends.forall₂ extensions (extends_replicate extension count)
  rw [List.map_replicate] at packed
  obtain ⟨isInt, _, few⟩ := extension
  have isPart := isPart_of_packed packed hpart
  obtain ⟨_, _, inside⟩ := packed.inside part (List.mem_of_getElem? hpart)
  have small := isPart.lt_iff.2 inside
  have low : i < 2 ^ 63 := small.trans (Nat.pow_lt_pow_right Nat.one_lt_two (by omega))
  exact (call_cidrsubnet_isPart ctx read).2 ⟨k, i, isInt, hnum, small, low, part, isPart, rfl⟩

theorem call_cidrsubnet_cidrsubnet {na nx ny : Number} {a x b y : Int} (ha : na.IsInt a)
    (hx : nx.IsInt x) (hb : nb.IsInt b) (hy : ny.IsInt y) {r : String}
    (first : (table engine).call ctx "cidrsubnet" [.string p, .number na, .number nx] =
      .ok (.string r))
    (second : (table engine).call ctx "cidrsubnet" [.string r, .number nb, .number ny] = .ok v)
    (small : x * 2 ^ b.toNat + y ≤ 2 ^ 53) :
    (table engine).call ctx "cidrsubnet" [.string p, .number (.ofInt (a + b)),
      .number (.ofInt (x * 2 ^ b.toNat + y))] = .ok v := by
  obtain ⟨a', x', ha', hx', inside, _, inner, hinner, eq⟩ :=
    (call_cidrsubnet_isPart ctx read).1 first
  cases eq
  obtain ⟨b', y', hb', hy', inside', _, part, hpart, rfl⟩ :=
    (call_cidrsubnet_isPart ctx (blockOf?_blockText inner)).1 second
  obtain rfl := ha.unique ha'
  obtain rfl := hx.unique hx'
  obtain rfl := hb.unique hb'
  obtain rfl := hy.unique hy'
  rw [Int.toNat_natCast] at small ⊢
  have whole := hinner.comp hpart
  have short := whole.short
  have few := outer.family.width_le
  have bounded : x' * 2 ^ b' + y' ≤ 2 ^ 53 := by exact_mod_cast small
  have bits : (Number.ofInt (a' + b')).IsInt (a' + b' : Nat) := by
    push_cast
    exact Number.isInt_ofInt (by omega)
  have number : (Number.ofInt (x' * 2 ^ b' + y')).IsInt (x' * 2 ^ b' + y' : Nat) := by
    push_cast
    exact Number.isInt_ofInt (by exact_mod_cast bounded)
  have inside := whole.lt_iff.2 ((hpart.lt_iff.1 inside').trans (hinner.lt_iff.1 inside))
  exact (call_cidrsubnet_isPart ctx read).2
    ⟨_, _, bits, number, inside, by omega, part, whole, rfl⟩

end

/-- A numbered subnet is the part of the block with this number, counted among equal parts,
    and it is given as soon as there is such a part, for numbers that fit into 64 bits.
    Different numbers give different addresses, parts of parts are parts, and parts that are
    handed out come in their order. -/
theorem cidrsubnet_partitions (ctx : Context) {p : String} {outer : Block}
    (read : blockOf? p = some outer) :
    (∀ (nb num : Number) (k m : Int), nb.IsInt k → num.IsInt m →
      ((∃ v, (table engine).call ctx "cidrsubnet" [.string p, .number nb, .number num] = .ok v) ↔
        0 ≤ k ∧ outer.length + k ≤ outer.family.width ∧ 0 ≤ m ∧ m < 2 ^ k.toNat ∧ m < 2 ^ 63) ∧
      ∀ v, (table engine).call ctx "cidrsubnet" [.string p, .number nb, .number num] = .ok v →
        ∃ part, v = .string (blockText part) ∧ blockOf? (blockText part) = some part ∧
          IsPart outer k.toNat m.toNat part) ∧
    (∀ (nb num num' : Number) (m m' : Int) (s s' : String), num.IsInt m → num'.IsInt m' →
      (table engine).call ctx "cidrsubnet" [.string p, .number nb, .number num] = .ok (.string s) →
      (table engine).call ctx "cidrsubnet" [.string p, .number nb, .number num'] =
        .ok (.string s') →
      ∃ part part', blockOf? s = some part ∧ blockOf? s' = some part' ∧
        (m ≠ m' → ∀ a, ¬ (part.contains a = true ∧ part'.contains a = true)) ∧
        (m' = m + 1 → part'.first.number = part.last.number + 1)) ∧
    (∀ (nb : Number) (count : Nat) (v : Value),
      (table engine).call ctx "cidrsubnets"
        (.string p :: (List.replicate count nb).map .number) = .ok v →
      ∃ texts, v = .stringList texts ∧ texts.length = count ∧
        ∀ (i : Nat) (num : Number) (s : String), num.IsInt i → texts[i]? = some s →
          (table engine).call ctx "cidrsubnet" [.string p, .number nb, .number num] =
            .ok (.string s)) ∧
    ∀ (na nx nb ny : Number) (a x b y : Int) (r : String) (v : Value),
      na.IsInt a → nx.IsInt x → nb.IsInt b → ny.IsInt y →
      (table engine).call ctx "cidrsubnet" [.string p, .number na, .number nx] = .ok (.string r) →
      (table engine).call ctx "cidrsubnet" [.string r, .number nb, .number ny] = .ok v →
      x * 2 ^ b.toNat + y ≤ 2 ^ 53 →
      (table engine).call ctx "cidrsubnet" [.string p, .number (.ofInt (a + b)),
        .number (.ofInt (x * 2 ^ b.toNat + y))] = .ok v := by
  refine ⟨fun nb num k m hk hm => ?_, fun nb num num' m m' s s' hm hm' first second => ?_,
    fun nb count v called => ?_, fun na nx nb ny a x b y r v ha hx hb hy first second small => ?_⟩
  · exact call_cidrsubnet_of_isInt ctx read hk hm
  · exact call_cidrsubnet_apart ctx read hm hm' first second
  · exact call_cidrsubnets_replicate ctx read called
  · exact call_cidrsubnet_cidrsubnet ctx read ha hx hb hy first second small

def fifthOfTens : Block := .around (.ofNat .v4 0x0A500000) 12

def sixthOfFifth : Block := .around (.ofNat .v4 0x0A560000) 16

theorem tens_are_cut :
    blockOf? "10.0.0.0/8" = some tens ∧
    standardTable.call {} "cidrsubnet"
      [.string "10.0.0.0/8", .number (.ofInt 4), .number (.ofInt 5)] =
      .ok (.string "10.80.0.0/12") ∧
    standardTable.call {} "cidrsubnet"
      [.string "10.80.0.0/12", .number (.ofInt 4), .number (.ofInt 6)] =
      .ok (.string "10.86.0.0/16") ∧
    standardTable.call {} "cidrsubnet"
      [.string "10.0.0.0/8", .number (.ofInt (4 + 4)), .number (.ofInt (5 * 2 ^ 4 + 6))] =
      .ok (.string "10.86.0.0/16") := by
  have read : blockOf? "10.0.0.0/8" = some tens := by decide +kernel
  have inner : blockOf? "10.80.0.0/12" = some fifthOfTens := by decide +kernel
  have four : (Number.ofInt 4).IsInt 4 := Number.isInt_ofInt (by decide)
  have five : (Number.ofInt 5).IsInt 5 := Number.isInt_ofInt (by decide)
  have six : (Number.ofInt 6).IsInt 6 := Number.isInt_ofInt (by decide)
  have first := (@call_cidrsubnet_isPart Regex.automaton {} _ _ read _ _ _).2
    ⟨4, 5, four, five, by decide, by decide, fifthOfTens, ⟨rfl, rfl, by decide⟩, rfl⟩
  have second := (@call_cidrsubnet_isPart Regex.automaton {} _ _ inner _ _ _).2
    ⟨4, 6, four, six, by decide, by decide, sixthOfFifth, ⟨rfl, rfl, by decide⟩, rfl⟩
  have text : blockText fifthOfTens = "10.80.0.0/12" := by decide +kernel
  have text' : blockText sixthOfFifth = "10.86.0.0/16" := by decide +kernel
  rw [text] at first
  rw [text'] at second
  obtain ⟨_, _, _, composed⟩ := cidrsubnet_partitions {} read
  exact ⟨read, first, second,
    composed _ _ _ _ 4 5 4 6 _ _ four five four six first second (by decide)⟩

/-- Numbers of parts are only read up to 64 bits, so of the 2^64 parts of ::/0 the second half is
    out of reach. -/
theorem half_of_whole_is_out_of_reach :
    blockOf? "::/0" = some (.around (.ofNat .v6 0) 0) ∧
    (Number.ofInt 64).IsInt 64 ∧ (Number.ofInt (2 ^ 63)).IsInt (2 ^ 63) ∧
    0 + 64 ≤ Net.Family.v6.width ∧ (2 : Int) ^ 63 < 2 ^ 64 ∧
    ¬ ∃ v, standardTable.call {} "cidrsubnet"
      [.string "::/0", .number (.ofInt 64), .number (.ofInt (2 ^ 63))] = .ok v := by
  have read : blockOf? "::/0" = some (.around (.ofNat .v6 0) 0) := by decide +kernel
  have bits : (Number.ofInt 64).IsInt 64 := Number.isInt_ofInt (by decide)
  have number : (Number.ofInt (2 ^ 63)).IsInt (2 ^ 63) := ⟨by decide +kernel, by decide +kernel⟩
  refine ⟨read, bits, number, by decide, by decide, fun given => ?_⟩
  obtain ⟨_, _, _, _, low⟩ := (call_cidrsubnet_of_isInt {} read bits number).1.1 given
  exact absurd low (by decide)

end MarkedValues.Standard
