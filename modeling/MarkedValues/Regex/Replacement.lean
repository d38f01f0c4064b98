import MarkedValues.Regex.Search

/-!
Replacing matches. In the replacement `$1`, `$name` and the same in braces stand for groups, `$$`
for a dollar sign; a group that does not exist or took no part stands for nothing.
-/
namespace MarkedValues.Regex

inductive Piece where
  | literal (c : Char)
  | group (reference : List Char)

def isReferenceChar (c : Char) : Bool := c.isAlphanum || c == '_'

def pieces : (fuel : Nat) → List Char → List Piece
  | 0, _ => []
  | _, [] => []
  | fuel + 1, '$' :: '$' :: cs => .literal '$' :: pieces fuel cs
  | fuel + 1, '$' :: '\x7b' :: cs =>
    let name := cs.takeWhile (· != '\x7d')
    match cs.drop name.length with
    | _ :: rest => .group name :: pieces fuel rest
    | [] => .literal '$' :: pieces fuel ('\x7b' :: cs)
  | fuel + 1, '$' :: cs =>
    let name := cs.takeWhile isReferenceChar
    if name.isEmpty then .literal '$' :: pieces fuel cs
    else .group name :: pieces fuel (cs.drop name.length)
  | fuel + 1, c :: cs => .literal c :: pieces fuel cs

def piecesOf (replacement : List Char) : List Piece := pieces replacement.length replacement

/-- A reference that is a number: digits, a plus in front allowed, below 2^64. -/
def groupNumber? (reference : List Char) : Option Nat :=
  let digits := match reference with
    | '+' :: rest => rest
    | _ => reference
  let n := Text.numberOf 10 digits
  if digits.isEmpty || !digits.all Char.isDigit || UInt64.size ≤ n then none else some n

def Piece.expand (r : Matcher) (text : List Char) (m : Match) : Piece → List Char
  | .literal c => [c]
  | .group reference =>
    let group := (groupNumber? reference).or (r.pattern.groupNamed (String.ofList reference))
    ((group.bind (m.group? text)).getD [])

namespace Matcher

/-- The text from `position` on with each match replaced. -/
def replaceFrom (r : Matcher) (text : List Char) (replacement : List Piece) (position : Nat) :
    List Match → List Char
  | [] => text.drop position
  | m :: ms =>
    (text.take m.span.1).drop position ++ replacement.flatMap (Piece.expand r text m) ++
      r.replaceFrom text replacement m.span.2 ms

def replaceAll (r : Matcher) (text replacement : List Char) : List Char :=
  r.replaceFrom text (piecesOf replacement) 0 (r.findAll text)

end Matcher

end MarkedValues.Regex
