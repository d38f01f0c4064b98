import MarkedValues.Net.Block
import MarkedValues.Standard.Arguments

/-!
Functions on network addresses and blocks of addresses. Blocks are handed out as numbers: a host is
an offset into a block, a subnet one of the equal parts of a block.
-/
namespace MarkedValues.Standard

open Net (Address Block Family Word)

def blockOf? (s : String) : Option Block := Block.ofText? s.toList

def blockAt (args : List Value) (i : Nat) : Outcome Block := do
  let s ← textAt args i
  match blockOf? s with
  | some p => .ok p
  | none => blame i ("invalid CIDR address: " ++ s)

def blockText (p : Block) : String := String.ofList p.text

/-- First and last of the addresses that a text stands for, an address alone being both. Mapped
    IPv4 addresses and blocks count as IPv4. -/
def addressRange? (s : String) : Option (Address × Address) :=
  match Address.ofText? s.toList with
  | some a => some (a.unmapped, a.unmapped)
  | none => (blockOf? s).map fun p => (p.unmapped.first, p.unmapped.last)

def cidrcontainsBody : Body := fun _ args _ => do
  let outer := (← blockAt args 0).unmapped
  match addressRange? (← textAt args 1) with
  | none => blame 1 ("invalid IP address or prefix: " ++ (← textAt args 1))
  | some (first, last) =>
    if first.family ≠ outer.family then
      .error (.ofFault (.familyMismatch (← textAt args 0) (← textAt args 1)))
    else .ok (.bool (outer.contains first && outer.contains last))

def cidrcontains : Function where
  name := "cidrcontains"
  params := [{ name := "containing_prefix", ty := .string },
    { name := "contained_ip_or_prefix", ty := .string }]
  rule := .fixed .bool
  body := cidrcontainsBody
  description := "Checks whether an IP address or prefix is within a prefix."

/-- The offset of a numbered host in a block; a negative number counts from the end. -/
def hostOffset? (p : Block) (host : Int) : Option Word :=
  let capacity := Net.shiftLeft? 1 p.hostBits
  let steps : Word := .ofNat 128 host.natAbs
  if 0 ≤ host then if capacity.any (· ≤ steps) then none else some steps
  else match capacity with
  | some c => if c < steps then none else some (c - steps)
  | none => some (0 - steps)

def cidrhostBody : Body := fun _ args _ => do
  let p ← blockAt args 0
  let host ← wholeAt args 1
  match hostOffset? p host with
  | some offset =>
    .ok (.string (String.ofList (Address.ofWord p.family (p.network.word ||| offset)).text))
  | none => blame 1 ("prefix of " ++ toString p.length ++ " does not accommodate a host numbered " ++
      toString host)

def cidrhost : Function where
  name := "cidrhost"
  params := [{ name := "prefix", ty := .string }, { name := "hostnum", ty := .number }]
  rule := .fixed .string
  notNull := true
  body := cidrhostBody

def cidrnetmask : Function where
  name := "cidrnetmask"
  params := [{ name := "prefix", ty := .string }]
  rule := .fixed .string
  notNull := true
  body := fun _ args _ => do
    let p ← blockAt args 0
    match p.family with
    | .v6 => blame 0 ("IPv6 addresses cannot have a netmask: " ++ (← textAt args 0))
    | .v4 => .ok (.string (String.ofList (Address.ofWord .v4 (Family.v4.mask p.length)).text))

/-- The part of a block with this number when it is cut into 2^newbits equal parts. -/
def subnet (p : Block) (newbits : Nat) (number : Word) : Block :=
  let length := p.length + newbits
  let place := (Net.shiftLeft? number (p.family.width - length)).getD 0
  .around (.ofWord p.family (p.network.word ||| place)) length

def highest (bits : Nat) : Word := ((Net.shiftLeft? 1 bits).map (· - 1)).getD (.allOnes 128)

def cidrsubnetBody : Body := fun _ args _ => do
  let p ← blockAt args 0
  let newbits ← wholeAt args 1
  let number ← wholeAt args 2
  let place : Word := .ofNat 128 number.toNat
  if newbits < 0 ∨ UInt32.size ≤ newbits then blame 1 "newbits must not be negative"
  else if p.family.width < p.length + newbits.toNat then
    blame 1 ("insufficient address space to extend prefix of " ++ toString p.length ++ " by " ++
      toString newbits)
  else if number < 0 ∨ highest newbits.toNat < place then
    blame 2 ("prefix extension of " ++ toString newbits ++
      " does not accommodate a subnet numbered " ++ toString number)
  else .ok (.string (blockText (subnet p newbits.toNat place)))

def cidrsubnet : Function where
  name := "cidrsubnet"
  params := [{ name := "prefix", ty := .string }, { name := "newbits", ty := .number },
    { name := "netnum", ty := .number }]
  rule := .fixed .string
  notNull := true
  body := cidrsubnetBody

/-- Subnets one after the other from argument `i` on, each the first aligned block of its length
    behind `current`, all inside `outer`. -/
def subnetsFrom (outer : Block) (args : List Value) :
    (i : Nat) → (current : Block) → (count : Nat) → Outcome (List Block)
  | _, _, 0 => .ok []
  | i, current, count + 1 => do
    let newbits ← wholeAt args i
    if newbits < 1 then blame i "must extend prefix by at least one bit"
    else if 32 < newbits then blame i "may not extend prefix by more than 32 bits"
    else
      let length := outer.length + newbits.toNat
      if outer.family.width < length then
        blame i ("would extend prefix to " ++ toString length ++
          " bits, which is too long for an " ++ outer.family.name ++ " address")
      else
        let (next, wrapped) := current.next length
        if wrapped || !outer.contains next.first then
          blame i ("not enough remaining address space for a subnet with a prefix of " ++
            toString length ++ " bits after " ++ blockText current)
        else do .ok (next :: (← subnetsFrom outer args (i + 1) next count))

/-- The length of the block in front of the first subnet. -/
def firstLength (outer : Block) (newbits : Int) : Nat :=
  Nat.min (outer.length + newbits).toNat outer.family.width

def cidrsubnetsBody : Body := fun _ args _ => do
  let outer ← blockAt args 0
  if args.length = 1 then .ok (.list .string [])
  else
    let before := outer.previous (firstLength outer (← wholeAt args 1))
    let blocks ← subnetsFrom outer args 1 before (args.length - 1)
    .ok (.stringList (blocks.map blockText))

/-- Subnets of a block one after the other, one for each length asked for. -/
def cidrsubnets : Function where
  name := "cidrsubnets"
  params := [{ name := "prefix", ty := .string }]
  varParam := some { name := "newbits", ty := .number }
  rule := .fixed (.list .string)
  notNull := true
  body := cidrsubnetsBody

end MarkedValues.Standard
