import MarkedValues.Number.Basic

/-!
Exact results are rounded once, to the nearest number, a tie to the even one. A result is given as
a quotient of naturals in steps of 2^-1074; integers, sums and decimal text all come through here.
-/
namespace MarkedValues.Number

/-- The quotient rounded to the nearest natural, a half to the even neighbour. -/
def nearestQuotient (num den : Nat) : Nat :=
  let q := num / den
  let twice := 2 * (num % den)
  if twice < den then q
  else if den < twice then q + 1
  else q + q % 2

/-- The code of the magnitude nearest to `num / den` steps; overflow gives infinity. Dropping
    `k` low bits leaves a 53-bit significand, and codes step by one within and across binades. -/
def codeOfSteps (num den : Nat) : Nat :=
  let k := (num / den).log2 - 52
  Nat.min infinityCode (k * binadeSize + nearestQuotient num (den * Nat.pow 2 k))

def ofRatio (negative : Bool) (num den : Nat) : Number :=
  ofCode negative (codeOfSteps (num * stepsPerUnit) den)

def ofNat (n : Nat) : Number := ofRatio false n 1

def ofInt (n : Int) : Number := ofRatio (n < 0) n.natAbs 1

/-- Sums of finite numbers are exact before they are rounded; an exact zero is positive unless
    both terms are negative zeros. -/
def addFinite (a b : Number) : Number :=
  let s := a.signedSteps + b.signedSteps
  if s == 0 then ofCode (a.isNegative && b.isNegative) 0
  else ofCode (s < 0) (codeOfSteps s.natAbs 1)

def add (a b : Number) : Number :=
  if a.isNaN || b.isNaN then nan
  else if a.isInfinite then
    if b.isInfinite && a.isNegative != b.isNegative then nan else a
  else if b.isInfinite then b
  else addFinite a b

/-- The sum from left to right. The empty sum is negative zero, the neutral element of `add`. -/
def sum (ns : List Number) : Number := ns.foldl add negativeZero

/-- Whole number of units in the magnitude, and whether anything is left over. -/
def wholePart (n : Number) : Nat := n.steps / stepsPerUnit

def isWhole (n : Number) : Bool := n.isFinite && n.steps % stepsPerUnit == 0

/-- Integers are handed out below this limit, 2^63, and down to its negative. -/
def intLimit : Nat := 0x8000000000000000

/-- The value as an integer, when it is whole and within the limit. -/
def toInt? (n : Number) : Option Int :=
  let value : Int := if n.isNegative then -(n.wholePart : Int) else n.wholePart
  if n.isWhole && -(intLimit : Int) ≤ value && value < intLimit then some value else none

/-- The magnitude cut or raised to a whole number; the sign stays, also on zero. -/
def toWhole (n : Number) (up : Bool) : Number :=
  if !n.isFinite || n.isWhole then n
  else ofRatio n.isNegative (n.wholePart + if up then 1 else 0) 1

def floor (n : Number) : Number := n.toWhole n.isNegative

def ceil (n : Number) : Number := n.toWhole (!n.isNegative)

def toFloat (n : Number) : Float := Float.ofBits n.bits

def ofFloat (x : Float) : Number := if x.isNaN then nan else ⟨x.toBits⟩

def log (n base : Number) : Number := ofFloat (n.toFloat.log / base.toFloat.log)

def pow (n power : Number) : Number := ofFloat (n.toFloat.pow power.toFloat)

example : ofInt 1 = ⟨0x3ff0000000000000⟩ ∧ ofInt (-3) = ⟨0xc008000000000000⟩ := by decide +kernel
example : ofRatio false 1 10 = ⟨0x3fb999999999999a⟩ := by decide +kernel
example : add ⟨0x3fb999999999999a⟩ ⟨0x3fc999999999999a⟩ = ⟨0x3fd3333333333334⟩ := by decide +kernel
example : ceil ⟨0xbfe0000000000000⟩ = negativeZero := by decide +kernel
example : ofInt (2 ^ 53 + 1) = ofInt (2 ^ 53) := by decide +kernel

end MarkedValues.Number
