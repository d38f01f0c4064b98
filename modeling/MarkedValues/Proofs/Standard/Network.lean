import MarkedValues.Proofs.Call.Preparation
import MarkedValues.Proofs.Net.Containment
import MarkedValues.Proofs.Net.Reading
import MarkedValues.Proofs.Standard.Scanning
import MarkedValues.Standard.Network

/-!
Containment between texts. A text names an address or a block, never both; the function compares the
two ends of what it names with a block, which decides for all addresses between them.
-/
namespace MarkedValues.Standard

open Net (Address Block Family)
open Outcomes

variable {engine : Regex.Engine}

/-- One address, or those of a block. -/
inductive Extent where
  | address (a : Address)
  | block (p : Block)

namespace Extent

def family : Extent → Family
  | address a => a.family
  | block p => p.family

def low : Extent → Nat
  | address a => a.number
  | block p => p.network.number

def high : Extent → Nat
  | address a => a.number
  | block p => p.network.number + 2 ^ (p.family.width - p.length) - 1

/-- The addresses of one extent are among those of another. -/
def Within (x y : Extent) : Prop :=
  x.family = y.family ∧ ∀ n, x.low ≤ n → n ≤ x.high → y.low ≤ n ∧ n ≤ y.high

theorem Within.refl (x : Extent) : x.Within x := ⟨rfl, fun _ low high => ⟨low, high⟩⟩

theorem Within.trans {x y z : Extent} (h : x.Within y) (g : y.Within z) : x.Within z := by
  refine ⟨h.1.trans g.1, fun n low high => ?_⟩
  obtain ⟨low', high'⟩ := h.2 n low high
  exact g.2 n low' high'

def unmapped : Extent → Extent
  | address a => .address a.unmapped
  | block p => .block p.unmapped

def ends : Extent → Address × Address
  | address a => (a, a)
  | block p => (p.first, p.last)

section

variable (x : Extent)

theorem family_ends : x.ends.1.family = x.family ∧ x.ends.2.family = x.family := by
  cases x <;> exact ⟨rfl, rfl⟩

theorem low_eq : x.low = x.ends.1.number := by cases x <;> rfl

theorem high_eq : x.high = x.ends.2.number := by
  cases x with
  | address a => rfl
  | block p => exact p.number_last.symm

theorem low_le_high : x.low ≤ x.high := by
  rw [low_eq, high_eq]
  cases x with
  | address a => exact le_rfl
  | block p => exact p.first_le_last

end

end Extent

/-- An address or a block in the family of its notation. -/
inductive Writes (s : String) : Extent → Prop
  | address {a : Address} : Address.ofText? s.toList = some a → Writes s (.address a)
  | block {p : Block} : blockOf? s = some p → Writes s (.block p)

/-- What a text names. An address mapped into IPv6 counts as IPv4, and so does a block of them. -/
inductive Names (s : String) : Extent → Prop
  | address {a : Address} : Address.ofText? s.toList = some a → Names s (.address a.unmapped)
  | block {p : Block} : Block.ofText? s.toList = some p → Names s (.block p.unmapped)

section

variable {s : String} {x y : Extent}

theorem Writes.unique (hx : Writes s x) (hy : Writes s y) : x = y := by
  cases hx with
  | address read =>
    cases hy with
    | address read' => cases read.symm.trans read'; rfl
    | block read' => cases read.symm.trans (Net.address_of_block read')
  | block read =>
    cases hy with
    | address read' => cases (Net.address_of_block read).symm.trans read'
    | block read' => cases read.symm.trans read'; rfl

theorem names_iff : Names s x ↔ ∃ y, Writes s y ∧ y.unmapped = x := by
  constructor
  · rintro (read | read)
    · exact ⟨_, .address read, rfl⟩
    · exact ⟨_, .block read, rfl⟩
  · rintro ⟨_, read | read, rfl⟩
    · exact .address read
    · exact .block read

theorem Writes.names (h : Writes s x) : Names s x.unmapped := names_iff.2 ⟨x, h, rfl⟩

theorem Names.unique (hx : Names s x) (hy : Names s y) : x = y := by
  obtain ⟨u, hu, rfl⟩ := names_iff.1 hx
  obtain ⟨v, hv, rfl⟩ := names_iff.1 hy
  rw [hu.unique hv]

theorem blockOf?_of_names {p : Block} (h : Names s (.block p)) :
    ∃ q, blockOf? s = some q ∧ q.unmapped = p := by
  cases h with
  | block read => exact ⟨_, read, rfl⟩

theorem addressRange?_of_names (h : Names s x) : addressRange? s = some x.ends := by
  cases h with
  | address read =>
    rw [addressRange?, read]
    rfl
  | block read =>
    rw [addressRange?, Net.address_of_block read, blockOf?, read]
    rfl

theorem names_of_addressRange? {ends : Address × Address} (h : addressRange? s = some ends) :
    ∃ x, Names s x := by
  rw [addressRange?] at h
  split at h
  · next a read => exact ⟨_, .address read⟩
  · obtain ⟨p, read, _⟩ := Option.map_eq_some_iff.1 h
    exact ⟨_, .block read⟩

end

theorem call_cidrcontains (ctx : Context) (p q : String) :
    (table engine).call ctx "cidrcontains" [.string p, .string q] =
      cidrcontains.finish .bool ∅ (cidrcontainsBody ctx [.string p, .string q] .bool) := by
  have prepared : cidrcontains.prepare [.string p, .string q] =
      .ok ⟨[.string p, .string q], ∅, false, false⟩ := rfl
  rw [standardTable_call cidrcontains rfl, Function.call_of_prepare prepared]
  rfl

section

variable {ctx : Context} {p q : String} {outer : Block} {inner : Extent}

theorem blockAt_eq_ok {args : List Value} {i : Nat} {s : String} {block : Block}
    (text : textAt args i = .ok s) : blockAt args i = .ok block ↔ blockOf? s = some block := by
  simp only [blockAt, text, bind, Except.bind]
  cases blockOf? s <;> simp [blame]

theorem body_eq {block : Block} (read : blockOf? p = some block) :
    cidrcontainsBody ctx [.string p, .string q] .bool =
      match addressRange? q with
      | none => blame 1 ("invalid IP address or prefix: " ++ q)
      | some (first, last) =>
        if first.family ≠ block.unmapped.family then .error (.ofFault (.familyMismatch p q))
        else .ok (.bool (block.unmapped.contains first && block.unmapped.contains last)) := by
  have first : blockAt [.string p, .string q] 0 = .ok block := (blockAt_eq_ok rfl).2 read
  rw [cidrcontainsBody, first]
  rfl

theorem body_of_names (hp : Names p (.block outer)) (hq : Names q inner) :
    cidrcontainsBody ctx [.string p, .string q] .bool =
      if inner.family ≠ outer.family then .error (.ofFault (.familyMismatch p q))
      else .ok (.bool (outer.contains inner.ends.1 && outer.contains inner.ends.2)) := by
  obtain ⟨block, read, rfl⟩ := blockOf?_of_names hp
  rw [body_eq read, addressRange?_of_names hq, ← inner.family_ends.1]

theorem mismatch_of_names (hp : Names p (.block outer)) (hq : Names q inner)
    (families : inner.family ≠ outer.family) :
    (table engine).call ctx "cidrcontains" [.string p, .string q] =
      .error (.ofFault (.familyMismatch p q)) := by
  rw [call_cidrcontains, body_of_names hp hq, if_pos families]
  rfl

theorem answer_of_names (hp : Names p (.block outer)) (hq : Names q inner)
    (families : inner.family = outer.family) :
    (table engine).call ctx "cidrcontains" [.string p, .string q] =
      .ok (.bool (outer.contains inner.ends.1 && outer.contains inner.ends.2)) := by
  rw [call_cidrcontains, body_of_names hp hq, if_neg (not_not_intro families)]
  rfl

theorem contains_ends_iff_within (families : inner.family = outer.family) :
    (outer.contains inner.ends.1 && outer.contains inner.ends.2) = true ↔
      inner.Within (.block outer) := by
  have ordered := inner.low_le_high
  rw [inner.low_eq, inner.high_eq] at ordered
  rw [Block.contains_ends_iff (inner.family_ends.1.trans families)
    (inner.family_ends.2.trans families) ordered, ← inner.low_eq, ← inner.high_eq,
    Block.number_last]
  exact (and_iff_right families).symm

theorem names_of_answer {v : Value}
    (h : (table engine).call ctx "cidrcontains" [.string p, .string q] = .ok v) :
    (∃ outer, Names p (.block outer)) ∧ ∃ inner, Names q inner := by
  rw [call_cidrcontains] at h
  obtain ⟨result, _, body, _⟩ := Function.finish_eq_ok h
  obtain ⟨block, first, _⟩ := bind_eq_ok.1 body
  have read := (blockAt_eq_ok rfl).1 first
  rw [body_eq read] at body
  refine ⟨⟨_, .block read⟩, ?_⟩
  cases range : addressRange? q with
  | none =>
    rw [range] at body
    cases body
  | some ends => exact names_of_addressRange? range

/-- The answer is yes exactly for a block and what lies in it. -/
theorem answer_eq_true :
    (table engine).call ctx "cidrcontains" [.string p, .string q] = .ok (.bool true) ↔
      ∃ outer inner, Names p (.block outer) ∧ Names q inner ∧ inner.Within (.block outer) := by
  constructor
  · intro h
    obtain ⟨⟨outer, hp⟩, inner, hq⟩ := names_of_answer h
    by_cases families : inner.family = outer.family
    · rw [answer_of_names hp hq families] at h
      have answer : (outer.contains inner.ends.1 && outer.contains inner.ends.2) = true := by
        simpa [Value.bool] using h
      exact ⟨outer, inner, hp, hq, (contains_ends_iff_within families).1 answer⟩
    · rw [mismatch_of_names hp hq families] at h
      cases h
  · rintro ⟨outer, inner, hp, hq, within⟩
    rw [answer_of_names hp hq within.1, (contains_ends_iff_within within.1).2 within]

end

/-- Containment decides whether the addresses of one text lie between the first and the last
    of the other, which for a block means that it is no shorter and begins with the same
    bits; over different families it fails. A block is within itself, and containment carries
    on from block to block. -/
theorem cidrcontains_decides_inclusion (ctx : Context) :
    (∀ p q outer inner, Names p (.block outer) → Names q inner →
      (inner.family ≠ outer.family →
        (table engine).call ctx "cidrcontains" [.string p, .string q] =
          .error (.ofFault (.familyMismatch p q))) ∧
      (inner.family = outer.family → ∃ answer : Bool,
        (table engine).call ctx "cidrcontains" [.string p, .string q] = .ok (.bool answer) ∧
          (answer = true ↔ ∀ n, inner.low ≤ n → n ≤ inner.high →
            (Extent.block outer).low ≤ n ∧ n ≤ (Extent.block outer).high) ∧
          ∀ block, inner = .block block → (answer = true ↔
            outer.length ≤ block.length ∧
              ∀ i < outer.length, block.network.bit i = outer.network.bit i))) ∧
    (∀ p outer, Names p (.block outer) →
      (table engine).call ctx "cidrcontains" [.string p, .string p] = .ok (.bool true)) ∧
    ∀ p q r, (table engine).call ctx "cidrcontains" [.string p, .string q] = .ok (.bool true) →
      (table engine).call ctx "cidrcontains" [.string q, .string r] = .ok (.bool true) →
      (table engine).call ctx "cidrcontains" [.string p, .string r] = .ok (.bool true) := by
  refine ⟨fun p q outer inner hp hq => ⟨mismatch_of_names hp hq, fun families => ?_⟩,
    fun p outer hp => ?_, fun p q r hpq hqr => ?_⟩
  · refine ⟨_, answer_of_names hp hq families, ?_, ?_⟩
    · exact (contains_ends_iff_within families).trans (and_iff_right families)
    · rintro block rfl
      exact Block.contains_block_iff families
  · exact answer_eq_true.2 ⟨outer, _, hp, hp, .refl _⟩
  · obtain ⟨outer, middle, hp, hq, first⟩ := answer_eq_true.1 hpq
    obtain ⟨middle', inner, hq', hr, second⟩ := answer_eq_true.1 hqr
    -- The text in the middle names one block, whichever side it is read on.
    rw [hq'.unique hq] at second
    exact answer_eq_true.2 ⟨outer, inner, hp, hr, second.trans first⟩

def tens : Block := .around (.ofNat .v4 0x0A000000) 8

def oneOfTens : Block := .around (.ofNat .v4 0x0A010000) 16

theorem mappedTens_contain :
    Names "::ffff:10.0.0.0/104" (.block tens) ∧ Names "10.1.0.0/16" (.block oneOfTens) ∧
      Names "::1" (.address (.ofNat .v6 1)) ∧
      standardTable.call {} "cidrcontains" [.string "::ffff:10.0.0.0/104", .string "::1"] =
        .error (.ofFault (.familyMismatch "::ffff:10.0.0.0/104" "::1")) ∧
      standardTable.call {} "cidrcontains"
        [.string "::ffff:10.0.0.0/104", .string "10.1.0.0/16"] = .ok (.bool true) ∧
      standardTable.call {} "cidrcontains"
        [.string "10.1.0.0/16", .string "::ffff:10.1.2.3"] = .ok (.bool true) ∧
      standardTable.call {} "cidrcontains"
        [.string "::ffff:10.0.0.0/104", .string "::ffff:10.1.2.3"] = .ok (.bool true) := by
  have mapped : Names "::ffff:10.0.0.0/104" (.block tens) :=
    .block (p := .around (.ofNat .v6 0xFFFF0A000000) 104) (by decide +kernel)
  have plain : Names "10.1.0.0/16" (.block oneOfTens) := .block (p := oneOfTens) (by decide +kernel)
  have loopback : Names "::1" (.address (.ofNat .v6 1)) :=
    .address (a := .ofNat .v6 1) (by decide +kernel)
  have member : Names "::ffff:10.1.2.3" (.address (.ofNat .v4 0x0A010203)) :=
    .address (a := .ofNat .v6 0xFFFF0A010203) (by decide +kernel)
  obtain ⟨decides, _, trans⟩ := cidrcontains_decides_inclusion {}
  obtain ⟨first, called, _, bits⟩ := (decides _ _ _ _ mapped plain).2 rfl
  obtain ⟨second, called', range, _⟩ := (decides _ _ _ _ plain member).2 rfl
  have longer : first = true := (bits oneOfTens rfl).2 (by decide +kernel)
  have between : second = true := range.2 fun n low high => by
    change 0x0A010203 ≤ n at low
    change n ≤ 0x0A010203 at high
    change 0x0A010000 ≤ n ∧ n ≤ 0x0A010000 + 2 ^ 16 - 1
    omega
  subst longer
  subst between
  exact ⟨mapped, plain, loopback, (decides _ _ _ _ mapped loopback).1 (by decide +kernel), called,
    called', trans _ _ _ called called'⟩

end MarkedValues.Standard
