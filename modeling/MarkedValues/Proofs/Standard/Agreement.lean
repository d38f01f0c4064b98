import MarkedValues.Proofs.Net.Mapped
import MarkedValues.Proofs.Standard.Hosts

/-!
Whether the test for containment accepts what is cut out of a block. It does, unless the text that
was given counts as IPv4 and the block does not: a short IPv6 block stays IPv6 even where it reaches
over the addresses that stand for IPv4, while one of these, or a block of them, is brought to IPv4.
-/
namespace MarkedValues.Standard

open Net (Address Block Family mappedRange mappedBase)

variable {engine : Regex.Engine}

namespace Extent

section

variable {x y : Extent} {p q : Block}

theorem within_block_iff :
    x.Within (.block p) ↔ p.contains x.ends.1 = true ∧ p.contains x.ends.2 = true := by
  rw [← Bool.and_eq_true]
  constructor
  · intro h
    exact (contains_ends_iff_within h.1).2 h
  · intro h
    have family := (Block.contains_iff.1 (Bool.and_eq_true_iff.1 h).1).1
    exact (contains_ends_iff_within (x.family_ends.1.symm.trans family)).1 h

/-- Of two blocks that share an address the longer one lies in the shorter one. -/
theorem within_of_shared {a : Address} (hp : p.contains a = true) (hq : q.contains a = true)
    (shorter : p.length ≤ q.length) : (block q).Within (.block p) := by
  obtain ⟨family, bits⟩ := Block.contains_iff_bits.1 hp
  obtain ⟨family', bits'⟩ := Block.contains_iff_bits.1 hq
  have same : q.family = p.family := family'.symm.trans family
  have ends := (Block.contains_block_iff same).2 ⟨shorter, fun i hi => by
    rw [← bits' i (hi.trans_le shorter), bits i hi]⟩
  exact within_block_iff.2 (Bool.and_eq_true_iff.1 ends)

theorem block_within_mappedRange_iff : (block q).Within (.block mappedRange) ↔
    96 ≤ q.length ∧ mappedRange.contains q.first = true := by
  constructor
  · intro h
    have ends := within_block_iff.1 h
    exact ⟨((Block.contains_block_iff h.1).1 (Bool.and_eq_true_iff.2 ends)).1, ends.1⟩
  · rintro ⟨long, first⟩
    exact within_of_shared first q.contains_first long

theorem unmapped_of_not_within (h : ¬ x.Within (.block mappedRange)) : x.unmapped = x := by
  cases x with
  | address a =>
    refine congrArg address (Address.unmapped_of_not_contains fun mapped => h ?_)
    exact within_block_iff.2 ⟨mapped, mapped⟩
  | block q =>
    exact congrArg block (Block.unmapped_of_not_mapped fun mapped =>
      h (block_within_mappedRange_iff.2 mapped))

theorem unmapped_of_within (h : x.Within (.block mappedRange)) :
    x.unmapped.family = .v4 ∧ x.low = mappedBase + x.unmapped.low ∧
      x.high = mappedBase + x.unmapped.high := by
  cases x with
  | address a =>
    obtain ⟨four, number⟩ := Address.number_of_mapped (within_block_iff.1 h).1
    exact ⟨four, number, number⟩
  | block q =>
    obtain ⟨long, first⟩ := block_within_mappedRange_iff.1 h
    obtain ⟨four, number, size⟩ := Block.number_of_mapped long first
    have positive := q.size_pos
    refine ⟨four, number, ?_⟩
    change q.network.number + q.size - 1 =
      mappedBase + (q.unmapped.network.number + q.unmapped.size - 1)
    omega

theorem within_unmapped (hx : x.Within (.block mappedRange)) (hy : y.Within (.block mappedRange))
    (h : x.Within y) : x.unmapped.Within y.unmapped := by
  obtain ⟨family, low, high⟩ := unmapped_of_within hx
  obtain ⟨family', low', high'⟩ := unmapped_of_within hy
  refine ⟨family.trans family'.symm, fun n hn hn' => ?_⟩
  obtain ⟨above, below⟩ := h.2 (mappedBase + n) (by omega) (by omega)
  omega

/-- A long block that meets the mapped addresses is made of them. -/
theorem within_mappedRange_of_meets (hx : x.Within (.block mappedRange)) (h : x.Within (.block p))
    (long : 96 ≤ p.length) : (block p).Within (.block mappedRange) :=
  within_of_shared (within_block_iff.1 hx).1 (within_block_iff.1 h).1 long

end

end Extent

/-- A text for an address inside ::ffff:0:0/96 or for a block inside it. -/
def Mapped (s : String) : Prop := ∃ x, Writes s x ∧ x.Within (.block mappedRange)

/-- An IPv6 block that is too long to be held by the mapped addresses, and a text for some of
    these. -/
def Crosses (outer : Block) (s : String) : Prop :=
  outer.family = .v6 ∧ outer.length < 96 ∧ Mapped s

section

variable {ctx : Context} {p s : String} {outer : Block} {x : Extent} (read : blockOf? p = some outer)
  (written : Writes s x) (within : x.Within (.block outer))

include read written within

theorem cidrcontains_of_crosses (crosses : Crosses outer s) :
    (table engine).call ctx "cidrcontains" [.string p, .string s] =
      .error (.ofFault (.familyMismatch p s)) := by
  obtain ⟨six, short, y, hy, mapped⟩ := crosses
  obtain rfl := hy.unique written
  have stays : outer.unmapped = outer :=
    Block.unmapped_of_not_mapped fun long => Nat.not_le.2 short long.1
  have outside : Names p (.block outer.unmapped) := .block read
  rw [stays] at outside
  refine mismatch_of_names outside written.names ?_
  rw [(Extent.unmapped_of_within mapped).1, six]
  exact Family.noConfusion

theorem cidrcontains_of_not_crosses (kept : ¬ Crosses outer s) :
    (table engine).call ctx "cidrcontains" [.string p, .string s] = .ok (.bool true) := by
  refine answer_eq_true.2 ⟨outer.unmapped, x.unmapped, .block read, written.names, ?_⟩
  by_cases mapped : x.Within (.block mappedRange)
  · have six : outer.family = .v6 := within.1.symm.trans mapped.1
    have long : 96 ≤ outer.length := by
      by_contra short
      exact kept ⟨six, Nat.not_le.1 short, x, written, mapped⟩
    exact Extent.within_unmapped (y := .block outer) mapped
      (Extent.within_mappedRange_of_meets mapped within long) within
  · have notMapped : ¬ (Extent.block outer).Within (.block mappedRange) :=
      fun whole => mapped (within.trans whole)
    have stays : outer.unmapped = outer :=
      Block.unmapped_of_not_mapped (Extent.block_within_mappedRange_iff.not.1 notMapped)
    rw [Extent.unmapped_of_not_within mapped, stays]
    exact within

end

/-- The texts for a host of a block, a numbered subnet, or one of those that are handed out. -/
inductive CutFrom (t : FunctionTable) (ctx : Context) (p : String) : String → Prop
  | host {n : Number} {s : String} :
    t.call ctx "cidrhost" [.string p, .number n] = .ok (.string s) → CutFrom t ctx p s
  | subnet {nb num : Number} {s : String} :
    t.call ctx "cidrsubnet" [.string p, .number nb, .number num] = .ok (.string s) →
      CutFrom t ctx p s
  | subnets {ns : List Number} {v : Value} {s : String} :
    t.call ctx "cidrsubnets" (.string p :: ns.map .number) = .ok v →
      .string s ∈ v.elements → CutFrom t ctx p s

section

variable {ctx : Context} {p s : String} {outer : Block} (read : blockOf? p = some outer)

include read

/-- All of it lies in the block, whatever its notation. -/
theorem exists_within_of_cutFrom (cut : CutFrom (table engine) ctx p s) :
    ∃ x, Writes s x ∧ x.Within (.block outer) := by
  cases cut with
  | host called =>
    obtain ⟨host, offset, whole, place, eq⟩ := (call_cidrhost ctx read).1 called
    cases eq
    have inside := (isHost_ofWord (Number.natAbs_lt_of_toInt? whole) place).contains
    exact ⟨.address _, .address (ofText?_addressText _), Extent.within_block_iff.2 ⟨inside, inside⟩⟩
  | subnet called =>
    obtain ⟨k, m, _, _, small, _, part, isPart, eq⟩ := (call_cidrsubnet_isPart ctx read).1 called
    cases eq
    refine ⟨.block part, .block (blockOf?_blockText part), ?_⟩
    have number : part.network.number = _ := isPart.number
    exact within_of_stop_le isPart.family (number ▸ Nat.le_add_right _ _) (isPart.lt_iff.1 small)
  | subnets called member =>
    obtain ⟨ks, blocks, _, _, packed, rfl⟩ := (call_cidrsubnets ctx read).1 called
    obtain ⟨text, htext, eq⟩ := List.mem_map.1 member
    obtain ⟨b, hb, rfl⟩ := List.mem_map.1 htext
    cases eq
    obtain ⟨family, above, below⟩ := packed.inside b hb
    exact ⟨.block b, .block (blockOf?_blockText b), within_of_stop_le family above below⟩

end

/-- What is cut out of a block is found to be contained in it, except where the block is a short
    IPv6 block and the text stands for IPv4 addresses; there the families do not match. -/
theorem cidrcontains_agrees (ctx : Context) {p s : String} {outer : Block}
    (read : blockOf? p = some outer) (cut : CutFrom (table engine) ctx p s) :
    (Crosses outer s → (table engine).call ctx "cidrcontains" [.string p, .string s] =
      .error (.ofFault (.familyMismatch p s))) ∧
    (¬ Crosses outer s → (table engine).call ctx "cidrcontains" [.string p, .string s] =
      .ok (.bool true)) := by
  obtain ⟨x, written, within⟩ := exists_within_of_cutFrom read cut
  exact ⟨cidrcontains_of_crosses read written within,
    cidrcontains_of_not_crosses read written within⟩

/-- The block ::fffe:0:0/95, of which ::ffff:0:0/96 is the second half. -/
def overMapped : Block := .around (.ofNat .v6 0xFFFE00000000) 95

def firstMappedHost : Address := .ofNat .v6 0xFFFF00000001

/-- A host that stands for an IPv4 address is not found in the block it was counted in, but a block
    of such addresses is found in all of them. -/
theorem mapped_host_is_not_found :
    blockOf? "::fffe:0:0/95" = some overMapped ∧ blockOf? "::ffff:0:0/96" = some mappedRange ∧
    standardTable.call {} "cidrhost" [.string "::fffe:0:0/95", .number (.ofInt (2 ^ 32 + 1))] =
      .ok (.string "::ffff:0.0.0.1") ∧
    standardTable.call {} "cidrcontains" [.string "::fffe:0:0/95", .string "::ffff:0.0.0.1"] =
      .error (.ofFault (.familyMismatch "::fffe:0:0/95" "::ffff:0.0.0.1")) ∧
    standardTable.call {} "cidrsubnet"
      [.string "::ffff:0:0/96", .number (.ofInt 8), .number (.ofInt 10)] =
      .ok (.string "::ffff:10.0.0.0/104") ∧
    standardTable.call {} "cidrcontains" [.string "::ffff:0:0/96", .string "::ffff:10.0.0.0/104"] =
      .ok (.bool true) := by
  have read : blockOf? "::fffe:0:0/95" = some overMapped := by decide +kernel
  have all : blockOf? "::ffff:0:0/96" = some mappedRange := by decide +kernel
  have text : addressText firstMappedHost = "::ffff:0.0.0.1" := by decide +kernel
  have text' : blockText (subnet mappedRange 8 10#128) = "::ffff:10.0.0.0/104" := by decide +kernel
  have number {k : Int} (small : k.natAbs ≤ 2 ^ 33) : (Number.ofInt k).toInt? = some k :=
    Number.toInt?_eq_some_iff.2 ⟨Number.isInt_ofInt (by omega), by
      unfold Number.intLimit; omega, by unfold Number.intLimit; omega⟩
  have host := (@call_cidrhost Regex.automaton {} _ _ read _ _).2
    ⟨2 ^ 32 + 1, 2 ^ 32 + 1, number (by decide), by decide +kernel, rfl⟩
  have part := (@call_cidrsubnet Regex.automaton {} _ _ all _ _ _).2
    ⟨8, 10, number (by decide), number (by decide), by decide, by decide, rfl⟩
  have same : Address.ofWord overMapped.family (overMapped.network.word ||| 2 ^ 32 + 1) =
      firstMappedHost := by decide +kernel
  rw [same, text] at host
  rw [text'] at part
  have crosses : Crosses overMapped "::ffff:0.0.0.1" :=
    ⟨rfl, by decide, .address firstMappedHost, .address (by decide +kernel),
      Extent.within_block_iff.2 ⟨by decide +kernel, by decide +kernel⟩⟩
  have kept : ¬ Crosses mappedRange "::ffff:10.0.0.0/104" :=
    fun crosses => absurd crosses.2.1 (by decide)
  exact ⟨read, all, host, (cidrcontains_agrees {} read (.host host)).1 crosses, part,
    (cidrcontains_agrees {} all (.subnet part)).2 kept⟩

end MarkedValues.Standard
