import MarkedValues.Net.Bits

/-!
Blocks of addresses that agree with a first address on the leading bits, written
`address/length`. Other blocks are reached through their masks, one step in front of the first
address or behind the last.
-/
namespace MarkedValues.Net

structure Block where
  network : Address
  length : Nat
  length_le : length ≤ network.family.width
  aligned : blockSize network.family length ∣ network.number
  deriving DecidableEq

namespace Block

def family (p : Block) : Family := p.network.family

def hostBits (p : Block) : Nat := p.family.width - p.length

def size (p : Block) : Nat := blockSize p.family p.length

/-- The block of this length that an address lies in; a length past the width counts as the
    width. -/
def around (a : Address) (length : Nat) : Block where
  network := .ofWord a.family (a.word &&& a.family.mask length)
  length := Nat.min length a.family.width
  length_le := Nat.min_le_right _ _
  aligned := by
    have : a.family.width - Nat.min length a.family.width = a.family.width - length := by
      simp only [Nat.min_def]; split <;> omega
    change Nat.pow 2 (a.family.width - Nat.min length a.family.width) ∣ _
    rw [this, Address.number_masked]
    exact Nat.dvd_mul_left _ _

def first (p : Block) : Address := p.network

def last (p : Block) : Address :=
  .ofWord p.family (p.network.word ||| (p.family.full &&& ~~~p.family.mask p.length))

def contains (p : Block) (a : Address) : Bool :=
  a.family == p.family && a.word &&& p.family.mask p.length == p.network.word

/-- The block of the given length that ends before this one, around the end of the family. -/
def previous (p : Block) (length : Nat) : Block :=
  around (.ofWord p.family ((p.network.word - 1) &&& p.family.full)) length

/-- The block of the given length after the one that holds the last address, and whether that went
    past the end of the family. -/
def next (p : Block) (length : Nat) : Block × Bool :=
  let current := around p.last length
  let after := (current.last.word + 1) &&& p.family.full
  (around (.ofWord p.family after) length, after == 0)

/-- A block inside the range of mapped IPv4 addresses as the IPv4 block it covers. -/
def unmapped (p : Block) : Block :=
  match p.family with
  | .v4 => p
  | .v6 =>
    if 96 ≤ p.length ∧ p.network.word >>> 32 = 0xffff then
      around (.ofWord .v4 (p.network.word &&& Family.v4.full)) (p.length - 96)
    else p

def ofText? (cs : List Char) : Option Block :=
  match cs.dropWhile (· != '/') with
  | [] => none
  | _ :: digits =>
    if digits.isEmpty || !digits.all Char.isDigit then none
    else match Address.ofText? (cs.takeWhile (· != '/')) with
    | none => none
    | some a =>
      let length := Text.numberOf 10 digits
      if a.family.width < length then none else some (around a length)

def text (p : Block) : List Char := p.network.text ++ '/' :: Nat.toDigits 10 p.length

example : (ofText? "10.1.2.3/8".toList).map (fun p => String.ofList p.text) = some "10.0.0.0/8" := by
  decide +kernel

end Block

end MarkedValues.Net
