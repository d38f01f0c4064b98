import MarkedValues.Unicode.Property

/-!
Looking for one text in another, character by character from the left, without overlaps. A scan
that has found the text counts down the characters still to be skipped.
-/
namespace MarkedValues.Text

/-- The pieces between the occurrences of a separator; `skip` characters belong to the last one. -/
def splitScan (sep : List Char) : (skip : Nat) → List Char → List (List Char)
  | _, [] => [[]]
  | skip + 1, _ :: cs => splitScan sep skip cs
  | 0, c :: cs =>
    if sep.isPrefixOf (c :: cs) then [] :: splitScan sep (sep.length - 1) cs
    else match splitScan sep 0 cs with
    | piece :: pieces => (c :: piece) :: pieces
    | [] => [[c]]

/-- The pieces between the occurrences of a separator. An empty one separates all characters. -/
def split (sep s : List Char) : List (List Char) :=
  if sep.isEmpty then s.map fun c => [c] else splitScan sep 0 s

/-- The text with each occurrence replaced; `skip` characters belong to the last one. -/
def replaceScan (old new : List Char) : (skip : Nat) → List Char → List Char
  | _, [] => []
  | skip + 1, _ :: cs => replaceScan old new skip cs
  | 0, c :: cs =>
    if old.isPrefixOf (c :: cs) then new ++ replaceScan old new (old.length - 1) cs
    else c :: replaceScan old new 0 cs

/-- The text with each occurrence replaced. The empty text occurs before every
    character and at the end. -/
def replace (old new s : List Char) : List Char :=
  if old.isEmpty then new ++ s.flatMap (fun c => c :: new) else replaceScan old new 0 s

def occurs (part : List Char) : List Char → Bool
  | [] => part.isEmpty
  | c :: cs => part.isPrefixOf (c :: cs) || occurs part cs

def dropStart? : (start s : List Char) → Option (List Char)
  | [], s => some s
  | _ :: _, [] => none
  | c :: start, d :: s => if c = d then dropStart? start s else none

def dropEnd? (stop s : List Char) : Option (List Char) :=
  (dropStart? stop.reverse s.reverse).map List.reverse

def trimEnd (drop : Char → Bool) (s : List Char) : List Char := (s.reverse.dropWhile drop).reverse

def trim (drop : Char → Bool) (s : List Char) : List Char := trimEnd drop (s.dropWhile drop)

def join (sep : List Char) (pieces : List (List Char)) : List Char := List.intercalate sep pieces

example : split ['a', 'a'] ['a', 'a', 'a', 'b'] = [[], ['a', 'b']] := by decide
example : replace [] ['-'] ['a', 'b'] = ['-', 'a', '-', 'b', '-'] := by decide

end MarkedValues.Text
