import MarkedValues.Text.Digits

/-!
Network addresses of both families as numbers, with their text forms. Reading takes one form of
IPv4 (four decimal parts without leading zeros) and all forms of IPv6; writing gives the canonical
form: lower case, the longest run of zero groups shortened, mapped IPv4 addresses with dots.
-/
namespace MarkedValues.Net

open Text (isDigitOf numberOf)

inductive Family where
  | v4
  | v6
  deriving DecidableEq

def Family.width : Family → Nat
  | .v4 => 32
  | .v6 => 128

def Family.size (f : Family) : Nat := Nat.pow 2 f.width

theorem Family.size_pos (f : Family) : 0 < f.size := Nat.two_pow_pos f.width

def Family.name : Family → String
  | .v4 => "IPv4"
  | .v6 => "IPv6"

/-- An address: a number below the size of its family. -/
structure Address where
  family : Family
  number : Nat
  number_lt : number < family.size
  deriving DecidableEq

namespace Address

/-- The address with this number, counted modulo the size of the family. -/
def ofNat (f : Family) (n : Nat) : Address := ⟨f, n % f.size, Nat.mod_lt _ f.size_pos⟩

@[simp] theorem number_ofNat (f : Family) (n : Nat) : (ofNat f n).number = n % f.size := rfl
@[simp] theorem family_ofNat (f : Family) (n : Nat) : (ofNat f n).family = f := rfl

/-- The high bits of the IPv6 addresses that stand for IPv4 addresses. -/
def mappedHigh : Nat := 0xFFFF

/-- An IPv6 address inside the mapped range as the IPv4 address it stands for. -/
def unmapped (a : Address) : Address :=
  match a.family with
  | .v4 => a
  | .v6 => if a.number / Family.v4.size = mappedHigh then ofNat .v4 a.number else a

end Address

/-- One part of an IPv4 address: at most three digits, no leading zero, below 256. -/
def readPart (cs : List Char) : Option (Nat × List Char) :=
  let digits := cs.takeWhile (isDigitOf 10)
  let n := numberOf 10 digits
  if digits.isEmpty || 3 < digits.length || 256 ≤ n then none
  else if digits.head? == some '0' && 1 < digits.length then none
  else some (n, cs.dropWhile (isDigitOf 10))

def readGroup (cs : List Char) : Option (Nat × List Char) :=
  let digits := cs.takeWhile (isDigitOf 16)
  if digits.isEmpty || 4 < digits.length then none
  else some (numberOf 16 digits, cs.dropWhile (isDigitOf 16))

def readChar (c : Char) : List Char → Option (List Char)
  | d :: cs => if c = d then some cs else none
  | [] => none

def readV4 (cs : List Char) : Option (Nat × List Char) := do
  let (a, cs) ← readPart cs
  let (b, cs) ← readPart (← readChar '.' cs)
  let (c, cs) ← readPart (← readChar '.' cs)
  let (d, cs) ← readPart (← readChar '.' cs)
  some (((a * 256 + b) * 256 + c) * 256 + d, cs)

/-- Up to `limit` groups with colons between them, a colon before the first unless it is `first`.
    An IPv4 address may stand for the last two; it ends the run, and the flag says so. -/
def readGroups (first : Bool) : (limit : Nat) → List Char → List Nat × Bool × List Char
  | 0, cs => ([], false, cs)
  | limit + 1, cs =>
    let start := if first then some cs else readChar ':' cs
    match if limit = 0 then none else start.bind readV4 with
    | some (n, rest) => ([n / 65536, n % 65536], true, rest)
    | none =>
      match start.bind readGroup with
      | some (g, rest) =>
        let (gs, embedded, rest) := readGroups false limit rest
        (g :: gs, embedded, rest)
      | none => ([], false, cs)

def ofGroups (groups : List Nat) : Nat := groups.foldl (fun n g => n * 65536 + g) 0

/-- Eight groups, or fewer with `::` for one or more groups of zero. -/
def readV6 (cs : List Char) : Option (Nat × List Char) :=
  let (front, embedded, rest) := readGroups true 8 cs
  if front.length = 8 then some (ofGroups front, rest)
  else if embedded then none
  else match rest with
  | ':' :: ':' :: rest =>
    let (back, _, rest) := readGroups true (7 - front.length) rest
    let zeros := List.replicate (8 - front.length - back.length) 0
    some (ofGroups (front ++ zeros ++ back), rest)
  | _ => none

/-- The address that is the whole text, in its own notation's family. -/
def Address.ofText? (cs : List Char) : Option Address :=
  match readV4 cs with
  | some (n, rest) => if rest.isEmpty then some (.ofNat .v4 n) else none
  | none =>
    match readV6 cs with
    | some (n, rest) => if rest.isEmpty then some (.ofNat .v6 n) else none
    | none => none

def textV4 (n : Nat) : List Char :=
  let part := fun k => Nat.toDigits 10 (n >>> (8 * k) % 256)
  part 3 ++ '.' :: part 2 ++ '.' :: part 1 ++ '.' :: part 0

def groupsOf (n : Nat) : List Nat := [7, 6, 5, 4, 3, 2, 1, 0].map fun k => n >>> (16 * k) % 65536

def leadingZeros (groups : List Nat) : Nat := (groups.takeWhile (· == 0)).length

/-- Place and length of the first among the longest runs of zero. -/
def longestZeroRun : (place : Nat) → List Nat → Nat × Nat
  | _, [] => (0, 0)
  | place, g :: gs =>
    let here := leadingZeros (g :: gs)
    let (start, length) := longestZeroRun (place + 1) gs
    if 0 < here && length ≤ here then (place, here) else (start, length)

def textGroups (groups : List Nat) : List Char :=
  List.intercalate [':'] (groups.map (Nat.toDigits 16))

def textV6 (n : Nat) : List Char :=
  if n / Family.v4.size = Address.mappedHigh then
    "::ffff:".toList ++ textV4 (n % Family.v4.size)
  else
    let groups := groupsOf n
    let (start, length) := longestZeroRun 0 groups
    if 1 < length then
      textGroups (groups.take start) ++ [':', ':'] ++ textGroups (groups.drop (start + length))
    else textGroups groups

def Address.text (a : Address) : List Char :=
  match a.family with
  | .v4 => textV4 a.number
  | .v6 => textV6 a.number

example : (Address.ofText? "2001:DB8::1".toList).map (fun a => String.ofList a.text) =
    some "2001:db8::1" := by decide +kernel
example : (Address.ofText? "::ffff:1.2.3.4".toList).map (fun a => String.ofList a.text) =
    some "::ffff:1.2.3.4" := by decide +kernel
example : Address.ofText? "1.2.3.04".toList = none ∧ Address.ofText? ":::".toList = none := by
  decide +kernel

end MarkedValues.Net
