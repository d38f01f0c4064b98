import MarkedValues.Text.Digits

/-!
Sets of code points as ascending ranges, and the plain text in which the tables of this folder are
written: hexadecimal numbers with blanks between the entries.
-/
namespace MarkedValues.Unicode

/-- The hexadecimal number at the start of the text, and the text behind it. -/
def takeHex (cs : List Char) : Nat × List Char := Text.takeNumber 16 cs

def entriesOf (table : List String) : List (List Char) :=
  table.flatMap fun line => (line.splitOn " ").map String.toList

abbrev Spans := Array (Nat × Nat)

/-- Reads `41-5A AA`: ranges with a dash, single code points without. -/
def Spans.ofTable (table : List String) : Spans :=
  ((entriesOf table).map fun entry =>
    match takeHex entry with
    | (low, '-' :: rest) => (low, (takeHex rest).1)
    | (low, _) => (low, low)).toArray

def Spans.contains (s : Spans) (n : Nat) : Bool := s.any fun (low, high) => low ≤ n && n ≤ high

end MarkedValues.Unicode
