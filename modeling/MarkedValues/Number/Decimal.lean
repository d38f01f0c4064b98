import MarkedValues.Number.Rounding
import MarkedValues.Text.Digits

/-!
Decimal text of numbers. Writing uses the fewest digits that read back as the same number, the
nearest such decimal, a tie upwards, and never an exponent. Reading rounds the exact decimal once.
-/
namespace MarkedValues.Number

/-- The natural number `digits` times a power of ten. -/
structure Decimal where
  digits : Nat
  exponent : Int
  deriving DecidableEq

namespace Decimal

def digitCount (n : Nat) : Nat := (Nat.toDigits 10 n).length

/-- The power of ten of the leading digit of `num / den`, for a positive quotient. -/
def leadingExponent (num den : Nat) : Int :=
  if den ≤ num then (digitCount (num / den) : Int) - 1 else -(digitCount ((den - 1) / num) : Int)

/-- The numbers that round to one code, doubled: its value and the ends halfway to its neighbours.
    The ends belong to it when the code is even. -/
structure Cell where
  low : Nat
  value : Nat
  high : Nat
  closed : Bool

def Cell.ofCode (code : Nat) : Cell :=
  { low := stepsOfCode (code - 1) + stepsOfCode code
    value := 2 * stepsOfCode code
    high := stepsOfCode code + stepsOfCode (code + 1)
    closed := code % 2 == 0 }

def Cell.contains (c : Cell) (x : Nat) : Bool :=
  if c.closed then c.low ≤ x && x ≤ c.high else c.low < x && x < c.high

def Cell.scale (c : Cell) (k : Nat) : Cell :=
  { c with low := c.low * k, value := c.value * k, high := c.high * k }

/-- The multiple of `unit` beside the value that lies in the cell: the nearer of two, a tie
    upwards. -/
def Cell.nearest? (c : Cell) (unit : Nat) : Option Nat :=
  let q := c.value / unit
  let below := c.contains (q * unit)
  let above := c.contains ((q + 1) * unit)
  if above && (!below || unit ≤ 2 * (c.value % unit)) then some (q + 1)
  else if below then some q
  else none

/-- The decimal in the cell on the grid of the given power of ten. -/
def Cell.onGrid? (c : Cell) (exponent : Int) : Option Nat :=
  let unit := 2 * stepsPerUnit
  if 0 ≤ exponent then c.nearest? (unit * Nat.pow 10 exponent.toNat)
  else (c.scale (Nat.pow 10 (-exponent).toNat)).nearest? unit

/-- The first grid, coarse to fine, that has a decimal in the cell. -/
def Cell.search (c : Cell) (exponent : Int) : Nat → Decimal
  | 0 => ⟨0, 0⟩
  | tries + 1 =>
    match c.onGrid? exponent with
    | some digits => ⟨digits, exponent⟩
    | none => c.search (exponent - 1) tries

/-- The shortest decimal that rounds to a positive finite code; seventeen digits always suffice. -/
def shortest (code : Nat) : Decimal :=
  let c := Cell.ofCode code
  c.search (leadingExponent c.value (2 * stepsPerUnit)) 18

def trimZeros (cs : List Char) : List Char := (cs.reverse.dropWhile (· == '0')).reverse

/-- Positional notation; the point appears only before a fraction. -/
def text (d : Decimal) : List Char :=
  let cs := Nat.toDigits 10 d.digits
  if 0 ≤ d.exponent then cs ++ List.replicate d.exponent.toNat '0'
  else
    let places := (-d.exponent).toNat
    let padded := List.replicate (places + 1 - cs.length) '0' ++ cs
    let fraction := trimZeros (padded.drop (padded.length - places))
    let whole := padded.take (padded.length - places)
    if fraction.isEmpty then whole else whole ++ '.' :: fraction

/-- The number nearest to a decimal, or nothing when it is too large. Powers of ten far outside
    the range are settled by the position of the leading digit. -/
def toNumber? (negative : Bool) (d : Decimal) : Option Number :=
  let lead := digitCount d.digits + d.exponent
  if d.digits = 0 ∨ lead < -400 then some (ofCode negative 0)
  else if 400 < lead then none
  else
    let n :=
      if 0 ≤ d.exponent then ofRatio negative (d.digits * Nat.pow 10 d.exponent.toNat) 1
      else ofRatio negative d.digits (Nat.pow 10 (-d.exponent).toNat)
    if n.isFinite then some n else none

end Decimal

/-- The shortest text that reads back: `inf`, `-inf` and `NaN` outside the finite numbers. -/
def text (n : Number) : String :=
  if n.isNaN then "NaN"
  else
    let magnitude :=
      if n.isInfinite then ['i', 'n', 'f']
      else if n.isZero then ['0']
      else (Decimal.shortest n.code).text
    String.ofList (if n.isNegative then '-' :: magnitude else magnitude)

/-- How a number reads in source: whole numbers below 10^15 are written as integers, so the sign
    of a zero is dropped; all others as `text`. -/
def format (n : Number) : String :=
  if n.isWhole && n.wholePart < Nat.pow 10 15 then
    toString (if n.isNegative then -(n.wholePart : Int) else n.wholePart)
  else n.text

def takeSign : List Char → Bool × List Char
  | '-' :: rest => (true, rest)
  | '+' :: rest => (false, rest)
  | cs => (false, cs)

def readExponent? : List Char → Option Int
  | [] => some 0
  | c :: cs =>
    if c == 'e' || c == 'E' then
      let (negative, ds) := takeSign cs
      if ds.isEmpty || !ds.all Char.isDigit then none
      else some (if negative then -(Text.numberOf 10 ds : Int) else Text.numberOf 10 ds)
    else none

def takeFraction : List Char → List Char × List Char
  | '.' :: rest => (rest.takeWhile Char.isDigit, rest.dropWhile Char.isDigit)
  | cs => ([], cs)

/-- Reads decimal text: an optional sign, digits with at most one point and at least one digit,
    and an optional exponent. Text whose value overflows is not a number. -/
def ofText? (s : String) : Option Number := do
  let (negative, cs) := takeSign s.toList
  let whole := cs.takeWhile Char.isDigit
  let (fraction, rest) := takeFraction (cs.dropWhile Char.isDigit)
  if whole.isEmpty && fraction.isEmpty then none
  let exponent ← readExponent? rest
  Decimal.toNumber? negative ⟨Text.numberOf 10 (whole ++ fraction), exponent - fraction.length⟩

example : (⟨0x3fb999999999999a⟩ : Number).text = "0.1" := by decide +kernel
example : (⟨0x3fd3333333333334⟩ : Number).text = "0.30000000000000004" := by decide +kernel
example : (ofInt (10 ^ 23)).text = "100000000000000000000000" := by decide +kernel
example : negativeZero.text = "-0" ∧ negativeZero.format = "0" := by decide +kernel
example : ofText? "1.5e-1" = some ⟨0x3fc3333333333333⟩ ∧ ofText? "." = none ∧
    ofText? "5." = ofText? "+5" ∧ ofText? "1e400" = none := by decide +kernel

end MarkedValues.Number
