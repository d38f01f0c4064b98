import MarkedValues.Proofs.Call.Primitives
import MarkedValues.Proofs.Net.Allocation
import MarkedValues.Proofs.Net.Writing
import MarkedValues.Proofs.Number.Whole
import MarkedValues.Proofs.Standard.Arguments
import MarkedValues.Proofs.Standard.Network

/-!
What the functions that cut addresses and blocks out of a block give, and when they give it: a host
at an offset, one of the equal parts, or blocks packed one behind the other.
-/
namespace MarkedValues.Standard

open Net (Address Block Family Packed)
open Outcomes

variable {engine : Regex.Engine}

section

variable {n : Number}

def Extends (n : Number) (k : Nat) : Prop := n.IsInt k ∧ 1 ≤ k ∧ k ≤ 32

theorem rightUnique_extends : Relator.RightUnique Extends :=
  fun _ _ _ hk hm => Int.ofNat_inj.1 (hk.1.unique hm.1)

theorem extends_replicate {k : Nat} (h : Extends n k) (count : Nat) :
    List.Forall₂ Extends (List.replicate count n) (List.replicate count k) := by
  induction count with
  | zero => exact .nil
  | succ count ih => exact .cons h ih

theorem extends_of_toInt? {m : Int} (h : n.toInt? = some m) (low : ¬ m < 1) (high : ¬ 32 < m) :
    Extends n m.toNat := by
  have value := (Number.toInt?_eq_some_iff.1 h).1
  refine ⟨?_, by omega, by omega⟩
  rwa [Int.toNat_of_nonneg (by omega)]

theorem extends_ofInt {k : Nat} (low : 1 ≤ k) (high : k ≤ 32) : Extends (.ofInt k) k :=
  ⟨Number.isInt_ofInt (by omega), low, high⟩

theorem Extends.toInt? {k : Nat} (h : Extends n k) : n.toInt? = some (k : Int) := by
  obtain ⟨value, low, high⟩ := h
  refine Number.toInt?_eq_some_iff.2 ⟨value, ?_, ?_⟩
  · omega
  · unfold Number.intLimit
    omega

end

theorem highest_lt_iff {bits m : Nat} (small : m < 2 ^ 128) :
    highest bits < .ofNat 128 m ↔ 2 ^ bits ≤ m := by
  have place : (BitVec.ofNat 128 m).toNat = m := Nat.mod_eq_of_lt small
  rw [BitVec.lt_def, place, highest, Net.shiftLeft?]
  have positive := Nat.two_pow_pos bits
  split
  · next short =>
    have one : (1 : Net.Word).toNat ≤ ((1 : Net.Word) <<< bits).toNat := by
      rw [Net.toNat_one_shiftLeft short]
      exact positive
    rw [Option.map_some, Option.getD_some, BitVec.toNat_sub_of_le (BitVec.le_def.2 one),
      Net.toNat_one_shiftLeft short]
    change 2 ^ bits - 1 < m ↔ _
    omega
  · next long =>
    have wide : 2 ^ 128 ≤ 2 ^ bits := Nat.pow_le_pow_right Nat.two_pos (by omega)
    change 2 ^ 128 - 1 < m ↔ _
    omega

section

variable {outer : Block} {args : List Value}

def noRoom (l : Nat) (current : Block) : String :=
  "not enough remaining address space for a subnet with a prefix of " ++ toString l ++
    " bits after " ++ blockText current

theorem subnetsFrom_of_extends {i k : Nat} {n : Number} (here : args[i]? = some (.number n))
    (extension : Extends n k) (short : outer.length + k ≤ outer.family.width) (current : Block)
    (count : Nat) :
    subnetsFrom outer args i current (count + 1) =
      if ((current.next (outer.length + k)).2 ||
          !outer.contains (current.next (outer.length + k)).1.first) = true then
        blame i (noRoom (outer.length + k) current)
      else subnetsFrom outer args (i + 1) (current.next (outer.length + k)).1 count >>= fun rest =>
        .ok ((current.next (outer.length + k)).1 :: rest) := by
  have whole : wholeAt args i = .ok k := (wholeAt_of_number here).2 extension.toInt?
  have low : ¬ (k : Int) < 1 := by have := extension.2.1; omega
  have high : ¬ (32 : Int) < k := by have := extension.2.2; omega
  rw [subnetsFrom, whole]
  simp only [bind, Except.bind, if_neg low, if_neg high, Int.toNat_natCast,
    if_neg (Nat.not_lt.2 short)]
  rfl

theorem exists_extends_of_subnetsFrom {i count : Nat} {n : Number}
    (here : args[i]? = some (.number n)) {current : Block} {blocks : List Block}
    (walk : subnetsFrom outer args i current (count + 1) = .ok blocks) :
    ∃ k, Extends n k ∧ outer.length + k ≤ outer.family.width := by
  rw [subnetsFrom] at walk
  obtain ⟨m, whole, step⟩ := bind_eq_ok.1 walk
  split at step
  · cases step
  · next low =>
    split at step
    · cases step
    · next high =>
      dsimp only at step
      split at step
      · cases step
      · next short =>
        have read := (wholeAt_of_number here).1 whole
        exact ⟨m.toNat, extends_of_toInt? read low high, Nat.not_lt.1 short⟩

/-- One step: the number of bits is admitted, and the next block of that length lies inside. -/
theorem subnetsFrom_succ_eq_ok {i count : Nat} {n : Number} (here : args[i]? = some (.number n))
    {current : Block} {blocks : List Block} :
    subnetsFrom outer args i current (count + 1) = .ok blocks ↔
      ∃ k, Extends n k ∧ outer.length + k ≤ outer.family.width ∧
        ((current.next (outer.length + k)).2 ||
          !outer.contains (current.next (outer.length + k)).1.first) = false ∧
        ∃ rest, blocks = (current.next (outer.length + k)).1 :: rest ∧
          subnetsFrom outer args (i + 1) (current.next (outer.length + k)).1 count = .ok rest := by
  constructor
  · intro walk
    obtain ⟨k, extension, short⟩ := exists_extends_of_subnetsFrom here walk
    rw [subnetsFrom_of_extends here extension short] at walk
    split at walk
    · cases walk
    · next inside =>
      obtain ⟨rest, later, eq⟩ := bind_eq_ok.1 walk
      cases eq
      exact ⟨k, extension, short, Bool.eq_false_of_not_eq_true inside, rest, rfl, later⟩
  · rintro ⟨k, extension, short, inside, rest, rfl, later⟩
    rw [subnetsFrom_of_extends here extension short, if_neg (Bool.eq_false_iff.1 inside), later]
    rfl

/-- The walk succeeds exactly when blocks of the lengths asked for can be packed from the end of the
    current one on. -/
theorem subnetsFrom_eq_ok {ns : List Number} {i : Nat} (rest : args.drop i = ns.map .number)
    {current : Block} (family : current.family = outer.family)
    (behind : outer.network.number ≤ current.stop) {blocks : List Block} :
    subnetsFrom outer args i current ns.length = .ok blocks ↔
      ∃ ks, List.Forall₂ Extends ns ks ∧
        Packed outer current.stop (ks.map (outer.length + ·)) blocks := by
  induction ns generalizing i current blocks with
  | nil =>
    rw [List.length_nil, subnetsFrom]
    constructor
    · intro h
      cases h
      exact ⟨[], .nil, .nil _⟩
    · rintro ⟨ks, extensions, packed⟩
      cases extensions
      cases packed
      rfl
  | cons n ns ih =>
    have here : args[i]? = some (.number n) := by
      rw [← List.head?_drop, rest]
      rfl
    have later : args.drop (i + 1) = ns.map .number := by
      rw [← List.tail_drop, rest]
      rfl
    have walks : ∀ {l : Nat} {tail : List Block},
        ((current.next l).2 || !outer.contains (current.next l).1.first) = false →
          (subnetsFrom outer args (i + 1) (current.next l).1 ns.length = .ok tail ↔
            ∃ ks, List.Forall₂ Extends ns ks ∧
              Packed outer (current.next l).1.stop (ks.map (outer.length + ·)) tail) := by
      intro l tail inside
      rw [Bool.or_eq_false_iff, Bool.not_eq_false'] at inside
      have ahead := (Block.contains_iff.1 inside.2).2.1.trans (Block.number_lt_stop _).le
      have sameFamily : (current.next l).1.family = outer.family := family
      exact ih later sameFamily ahead
    rw [List.length_cons, subnetsFrom_succ_eq_ok here]
    constructor
    · rintro ⟨k, extension, short, inside, rest, eq, walk⟩
      obtain ⟨ks, extensions, packed⟩ := (walks inside).1 walk
      refine ⟨k :: ks, .cons extension extensions, ?_⟩
      exact (Net.packed_iff_next family (Nat.le_add_right _ k) short behind).2
        ⟨inside, rest, eq, packed⟩
    · rintro ⟨ks, extensions, packed⟩
      cases extensions with
      | @cons _ k _ ks extension extensions =>
        have short : outer.length + k ≤ outer.family.width := packed.length_le_width
        obtain ⟨inside, rest, eq, packed⟩ :=
          (Net.packed_iff_next family (Nat.le_add_right _ k) short behind).1 packed
        exact ⟨k, extension, short, inside, rest, eq, (walks inside).2 ⟨ks, extensions, packed⟩⟩

end

theorem within_of_stop_le {outer b : Block} (family : b.family = outer.family)
    (above : outer.network.number ≤ b.network.number) (below : b.stop ≤ outer.stop) :
    (Extent.block b).Within (.block outer) := by
  refine ⟨family, fun n low high => ⟨above.trans low, ?_⟩⟩
  have positive := b.size_pos
  change n ≤ b.network.number + b.size - 1 at high
  change n ≤ outer.network.number + outer.size - 1
  rw [Block.stop, Block.stop] at below
  omega

theorem length_le_firstLength (outer : Block) (k : Nat) : outer.length ≤ firstLength outer k := by
  have fits := outer.length_le
  refine Nat.le_min.2 ⟨?_, fits⟩
  omega

def addressText (a : Address) : String := String.ofList a.text

theorem blockOf?_blockText (p : Block) : blockOf? (blockText p) = some p := by
  rw [blockOf?, blockText, String.toList_ofList]
  exact Block.ofText?_text p

section

variable (ctx : Context) {p : String} {outer : Block} (read : blockOf? p = some outer)

include read

omit ctx in
theorem blockAt_zero {args : List Value} : blockAt (.string p :: args) 0 = .ok outer :=
  (blockAt_eq_ok rfl).2 read

theorem cidrsubnetsBody_cons {n : Number} {ns : List Number} (ret : Ty) :
    cidrsubnetsBody ctx (.string p :: (n :: ns).map .number) ret =
      wholeAt (.string p :: (n :: ns).map .number) 1 >>= fun m =>
        subnetsFrom outer (.string p :: (n :: ns).map .number) 1
          (outer.previous (firstLength outer m)) (n :: ns).length >>= fun blocks =>
            .ok (.stringList (blocks.map blockText)) := by
  rw [cidrsubnetsBody, blockAt_zero read]
  simp [bind, Except.bind]

theorem cidrsubnetsBody_eq_ok {ns : List Number} (ret : Ty) (v : Value) :
    cidrsubnetsBody ctx (.string p :: ns.map .number) ret = .ok v ↔
      ∃ ks blocks, List.Forall₂ Extends ns ks ∧ (ks = [] ∨ outer.network.number ≠ 0) ∧
        Packed outer outer.network.number (ks.map (outer.length + ·)) blocks ∧
        v = .stringList (blocks.map blockText) := by
  cases ns with
  | nil =>
    have body : cidrsubnetsBody ctx [.string p] ret = .ok (.stringList []) := by
      rw [cidrsubnetsBody, blockAt_zero read]
      rfl
    rw [List.map_nil, body]
    constructor
    · intro h
      cases h
      exact ⟨[], [], .nil, .inl rfl, .nil _, rfl⟩
    · rintro ⟨ks, blocks, extensions, _, packed, rfl⟩
      cases extensions
      cases packed
      rfl
  | cons n ns =>
    rw [cidrsubnetsBody_cons ctx read, bind_eq_ok]
    have here : (Value.string p :: (n :: ns).map Value.number)[1]? = some (.number n) := rfl
    simp only [wholeAt_of_number here, bind_eq_ok]
    have walk : ∀ (m : Int) (blocks : List Block),
        subnetsFrom outer (.string p :: (n :: ns).map .number) 1
          (outer.previous (firstLength outer m)) (n :: ns).length = .ok blocks ↔
            ∃ ks, List.Forall₂ Extends (n :: ns) ks ∧
              Packed outer (outer.previous (firstLength outer m)).stop
                (ks.map (outer.length + ·)) blocks := by
      intro m blocks
      have family : (outer.previous (firstLength outer m)).family = outer.family := rfl
      exact subnetsFrom_eq_ok rfl family (outer.number_le_stop_previous (firstLength outer m))
    simp only [walk]
    constructor
    · rintro ⟨m, whole, blocks, ⟨ks, extensions, packed⟩, eq⟩
      cases eq
      cases extensions with
      | @cons _ k _ ks extension extensions =>
        cases whole.symm.trans extension.toInt?
        obtain ⟨some, packed⟩ := (Net.packed_previous_iff (length_le_firstLength outer k)).1 packed
        exact ⟨k :: ks, blocks, .cons extension extensions, .inr some, packed, rfl⟩
    · rintro ⟨ks, blocks, extensions, some, packed, rfl⟩
      cases extensions with
      | @cons _ k _ ks extension extensions =>
        have some := some.resolve_left (List.cons_ne_nil k ks)
        refine ⟨k, extension.toInt?, blocks, ⟨k :: ks, .cons extension extensions, ?_⟩, rfl⟩
        exact (Net.packed_previous_iff (length_le_firstLength outer k)).2 ⟨some, packed⟩

/-- The block in front of one at the beginning of its family is the last of the family, and the walk
    does not get behind it. -/
theorem cidrsubnetsBody_of_zero (zero : outer.network.number = 0) {n : Number} {k : Nat}
    (extension : Extends n k) (short : outer.length + k ≤ outer.family.width) (ns : List Number)
    (ret : Ty) :
    cidrsubnetsBody ctx (.string p :: (n :: ns).map .number) ret =
      blame 1 (noRoom (outer.length + k) (outer.previous (outer.length + k))) := by
  have here : (Value.string p :: (n :: ns).map Value.number)[1]? = some (.number n) := rfl
  have first : firstLength outer k = outer.length + k := Nat.min_eq_left short
  have wraps := Net.Block.next_previous_wraps (Nat.le_add_right _ k) zero
  have failed := subnetsFrom_of_extends here extension short (outer.previous (outer.length + k))
    ns.length
  rw [wraps, Bool.true_or, if_pos rfl] at failed
  rw [cidrsubnetsBody_cons ctx read, (wholeAt_of_number here).2 extension.toInt?]
  simp only [bind, Except.bind, first, List.length_cons, failed]
  rfl

theorem cidrsubnetBody_eq_ok {nb num : Number} (ret : Ty) (v : Value) :
    cidrsubnetBody ctx [.string p, .number nb, .number num] ret = .ok v ↔
      ∃ k m : Nat, nb.toInt? = some (k : Int) ∧ num.toInt? = some (m : Int) ∧
        outer.length + k ≤ outer.family.width ∧ m < 2 ^ k ∧
        v = .string (blockText (subnet outer k (.ofNat 128 m))) := by
  have width : outer.family.width < UInt32.size := by cases outer.family <;> decide
  rw [cidrsubnetBody, blockAt_zero read]
  have first : ∀ x, wholeAt [.string p, .number nb, .number num] 1 = .ok x ↔ nb.toInt? = some x :=
    fun x => wholeAt_of_number rfl
  have second : ∀ x, wholeAt [.string p, .number nb, .number num] 2 = .ok x ↔ num.toInt? = some x :=
    fun x => wholeAt_of_number rfl
  simp only [bind_eq_ok, first, second]
  constructor
  · rintro ⟨_, eq, x, hx, y, hy, body⟩
    cases eq
    split at body
    · cases body
    · next natural =>
      split at body
      · cases body
      · next short =>
        split at body
        · cases body
        · next small =>
          cases body
          have below := Number.natAbs_lt_of_toInt? hy
          rw [highest_lt_iff (by omega)] at small
          refine ⟨x.toNat, y.toNat, ?_, ?_, by omega, by omega, rfl⟩
          · rwa [Int.toNat_of_nonneg (by omega)]
          · rwa [Int.toNat_of_nonneg (by omega)]
  · rintro ⟨k, m, hk, hm, short, small, rfl⟩
    have below : m < 2 ^ 128 := Number.natAbs_lt_of_toInt? hm
    have fits : ¬ ((m : Int) < 0 ∨ highest k < .ofNat 128 m) := by
      rw [highest_lt_iff below]
      omega
    refine ⟨outer, rfl, k, hk, m, hm, ?_⟩
    rw [if_neg (by omega), if_neg (by simp; omega), Int.toNat_natCast, Int.toNat_natCast, if_neg fits]

theorem cidrhostBody_eq_ok {n : Number} (ret : Ty) (v : Value) :
    cidrhostBody ctx [.string p, .number n] ret = .ok v ↔
      ∃ host offset, n.toInt? = some host ∧ hostOffset? outer host = some offset ∧
        v = .string (addressText (.ofWord outer.family (outer.network.word ||| offset))) := by
  have number : ∀ x, wholeAt [.string p, .number n] 1 = .ok x ↔ n.toInt? = some x :=
    fun x => wholeAt_of_number rfl
  rw [cidrhostBody, blockAt_zero read]
  simp only [bind_eq_ok, number]
  constructor
  · rintro ⟨_, eq, host, whole, body⟩
    cases eq
    split at body
    · next offset inside =>
      cases body
      exact ⟨host, offset, whole, inside, rfl⟩
    · cases body
  · rintro ⟨host, offset, whole, inside, rfl⟩
    refine ⟨outer, rfl, host, whole, ?_⟩
    rw [inside]
    rfl

end

theorem subnet_args (p : String) (ns : List Number) : Value.string p :: ns.map Value.number =
    (Scalar.string p :: ns.map Scalar.number).map (Value.scalar · ∅) := by
  rw [List.map_cons, List.map_map]
  rfl

theorem takes_cidrsubnets (p : String) (ns : List Number) :
    cidrsubnets.Takes 0 (.string p :: ns.map .number) :=
  .cons rfl rfl (Function.takes_rest rfl (List.forall_mem_map.2 fun _ _ => rfl) le_rfl)

theorem arity_cidrsubnets (p : String) (ns : List Number) :
    cidrsubnets.arityFault? (Scalar.string p :: ns.map .number).length = none := by
  simp [Function.arityFault?, cidrsubnets]

section

variable (ctx : Context) {p : String} {outer : Block} (read : blockOf? p = some outer) {v : Value}

include read

theorem call_cidrhost {n : Number} :
    (table engine).call ctx "cidrhost" [.string p, .number n] = .ok v ↔
      ∃ host offset, n.toInt? = some host ∧ hostOffset? outer host = some offset ∧
        v = .string (addressText (.ofWord outer.family (outer.network.word ||| offset))) := by
  have taken : cidrhost.Takes 0 [.string p, .number n] := .cons rfl rfl (.cons rfl rfl (.nil 2))
  have body := cidrhostBody_eq_ok ctx read (n := n) .string
  rw [standardTable_call cidrhost rfl, ← body v]
  refine Function.call_eq_ok_iff rfl taken rfl fun w hw => ?_
  obtain ⟨_, _, _, _, rfl⟩ := (body w).1 hw
  exact ⟨rfl, rfl, rfl⟩

theorem call_cidrsubnet {nb num : Number} :
    (table engine).call ctx "cidrsubnet" [.string p, .number nb, .number num] = .ok v ↔
      ∃ k m : Nat, nb.toInt? = some (k : Int) ∧ num.toInt? = some (m : Int) ∧
        outer.length + k ≤ outer.family.width ∧ m < 2 ^ k ∧
        v = .string (blockText (subnet outer k (.ofNat 128 m))) := by
  have taken : cidrsubnet.Takes 0 [.string p, .number nb, .number num] :=
    .cons rfl rfl (.cons rfl rfl (.cons rfl rfl (.nil 3)))
  have body := fun w => @cidrsubnetBody_eq_ok ctx p outer read nb num .string w
  rw [standardTable_call cidrsubnet rfl, ← body v]
  refine Function.call_eq_ok_iff rfl taken rfl fun w hw => ?_
  obtain ⟨_, _, _, _, _, _, rfl⟩ := (body w).1 hw
  exact ⟨rfl, rfl, rfl⟩

theorem call_cidrsubnets {ns : List Number} :
    (table engine).call ctx "cidrsubnets" (.string p :: ns.map .number) = .ok v ↔
      ∃ ks blocks, List.Forall₂ Extends ns ks ∧ (ks = [] ∨ outer.network.number ≠ 0) ∧
        Packed outer outer.network.number (ks.map (outer.length + ·)) blocks ∧
        v = .stringList (blocks.map blockText) := by
  have body := fun w => @cidrsubnetsBody_eq_ok ctx p outer read ns (.list .string) w
  rw [standardTable_call cidrsubnets rfl, ← body v, subnet_args]
  refine Function.call_eq_ok_iff (arity_cidrsubnets p ns) (takes_cidrsubnets p ns) rfl fun w hw => ?_
  rw [← subnet_args] at hw
  obtain ⟨_, _, _, _, _, rfl⟩ := (body w).1 hw
  exact ⟨rfl, rfl, rfl⟩

theorem call_cidrsubnets_of_zero (zero : outer.network.number = 0) {n : Number} {k : Nat}
    (extension : Extends n k) (short : outer.length + k ≤ outer.family.width) (ns : List Number) :
    (table engine).call ctx "cidrsubnets" (.string p :: (n :: ns).map .number) =
      .error ⟨.argument (noRoom (outer.length + k) (outer.previous (outer.length + k))), some 1,
        some "newbits"⟩ := by
  have failed := cidrsubnetsBody_of_zero ctx read zero extension short ns (.list .string)
  rw [subnet_args] at failed
  rw [standardTable_call cidrsubnets rfl, subnet_args]
  exact Function.call_eq_error (arity_cidrsubnets p _) (takes_cidrsubnets p _) rfl failed

end

end MarkedValues.Standard
