/-!
Numbers written by digits. Letters are digits from ten on, in either case; the radix decides which
characters are digits at all.
-/
namespace MarkedValues.Text

/-- The value of a digit; 36, which is none in any radix, for all other characters. -/
def digitValue (c : Char) : Nat :=
  if '0' ≤ c ∧ c ≤ '9' then c.toNat - '0'.toNat
  else if 'a' ≤ c ∧ c ≤ 'z' then c.toNat - 'a'.toNat + 10
  else if 'A' ≤ c ∧ c ≤ 'Z' then c.toNat - 'A'.toNat + 10
  else 36

def isDigitOf (radix : Nat) (c : Char) : Bool := digitValue c < radix

/-- The number that digits write in a radix, the most significant first. -/
def numberOf (radix : Nat) (digits : List Char) : Nat :=
  digits.foldl (fun n c => n * radix + digitValue c) 0

def takeNumber (radix : Nat) (cs : List Char) : Nat × List Char :=
  (numberOf radix (cs.takeWhile (isDigitOf radix)), cs.dropWhile (isDigitOf radix))

/-- One more digit at the end. -/
theorem numberOf_concat (radix : Nat) (digits : List Char) (c : Char) :
    numberOf radix (digits ++ [c]) = numberOf radix digits * radix + digitValue c := by
  simp [numberOf, List.foldl_append]

end MarkedValues.Text
