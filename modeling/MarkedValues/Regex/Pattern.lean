import MarkedValues.Unicode.Age
import MarkedValues.Unicode.Property
import MarkedValues.Unicode.CaseFold

/-!
Regular expressions as trees. Flags are gone: a class already knows about case, an assertion about
lines. What a pattern matches is decided in order of preference, so alternatives and the two kinds
of repetition are ordered.
-/
namespace MarkedValues.Regex

abbrev CharClass := Char → Bool

/-- The characters of the class that patterns know. -/
def established (cls : CharClass) : CharClass := fun c => !Unicode.isRecent c && cls c

/-- A letter, digit or joining character, as words are made of. -/
def isWord (c : Char) : Bool :=
  if c.toNat < 128 then c.isAlphanum || c == '_'
  else
    let category := Unicode.earlierCategory c
    established Unicode.isAlphabetic c || category.isMark || category == .Nd || category == .Pc ||
      c == '\u200c' || c == '\u200d'

def isAsciiWord (c : Char) : Bool := c.toNat < 128 && isWord c

def isDecimalDigit (c : Char) : Bool :=
  if c.toNat < 128 then c.isDigit else Unicode.earlierCategory c == .Nd

inductive Assertion where
  | textStart
  | textEnd
  /-- Before the text or after a line feed. -/
  | lineStart
  | lineEnd
  /-- As for lines, where a carriage return with a line feed is one line end. -/
  | anyLineStart
  | anyLineEnd
  | wordBoundary (ascii : Bool)
  | noWordBoundary (ascii : Bool)
  | wordStart (ascii : Bool)
  | wordEnd (ascii : Bool)
  | noWordBefore (ascii : Bool)
  | noWordAfter (ascii : Bool)
  deriving DecidableEq

/-- Whether a condition holds between two neighbours; `none` is the end of the text. -/
def Assertion.holds (a : Assertion) (before after : Option Char) : Bool :=
  let word := fun (ascii : Bool) (c : Option Char) => c.any (if ascii then isAsciiWord else isWord)
  match a with
  | .textStart => before.isNone
  | .textEnd => after.isNone
  | .lineStart => before.isNone || before == some '\n'
  | .lineEnd => after.isNone || after == some '\n'
  | .anyLineStart =>
    before.isNone || before == some '\n' || (before == some '\r' && after != some '\n')
  | .anyLineEnd =>
    after.isNone || after == some '\r' || (after == some '\n' && before != some '\r')
  | .wordBoundary ascii => word ascii before != word ascii after
  | .noWordBoundary ascii => word ascii before == word ascii after
  | .wordStart ascii => !word ascii before && word ascii after
  | .wordEnd ascii => word ascii before && !word ascii after
  | .noWordBefore ascii => !word ascii before
  | .noWordAfter ascii => !word ascii after

inductive Pattern where
  | empty
  | one (cls : CharClass)
  | assert (a : Assertion)
  | cat (p q : Pattern)
  /-- Either pattern, the first preferred. -/
  | alt (p q : Pattern)
  /-- At least `min` and at most `max` times; greedy prefers more. -/
  | repeat (min : Nat) (max : Option Nat) (greedy : Bool) (p : Pattern)
  | group (index : Nat) (name : Option String) (p : Pattern)

namespace Pattern

/-- All matches are empty whatever the text. -/
def onlyEmpty : Pattern → Bool
  | .empty | .assert _ => true
  | .one _ => false
  | .cat p q | .alt p q => p.onlyEmpty && q.onlyEmpty
  | .repeat _ max _ p => max.isSome && p.onlyEmpty
  | .group _ _ p => p.onlyEmpty

/-- Repetition in simplest form: of what is always empty once is enough, and repeating no times is
    the empty pattern, groups and all. -/
def times (min : Nat) (max : Option Nat) (greedy : Bool) (p : Pattern) : Pattern :=
  let least := if p.onlyEmpty then Nat.min min 1 else min
  let most := if p.onlyEmpty then some (Nat.min (max.getD 1) 1) else max
  match least, most with
  | 0, some 0 => .empty
  | 1, some 1 => p
  | least, most => .repeat least most greedy p

/-- The groups, in order of their opening. -/
def groups : Pattern → List (Nat × Option String)
  | .empty | .one _ | .assert _ => []
  | .cat p q | .alt p q => p.groups ++ q.groups
  | .repeat _ _ _ p => p.groups
  | .group i name p => (i, name) :: p.groups

def groupCount (p : Pattern) : Nat := p.groups.foldl (fun n g => Nat.max n g.1) 0

/-- The names of groups 1, 2, …; a number that no group has counts as unnamed. -/
def groupNames (p : Pattern) : List (Option String) :=
  (List.range p.groupCount).map fun i => (p.groups.lookup (i + 1)).join

def groupNamed (p : Pattern) (name : String) : Option Nat :=
  p.groups.findSome? fun (i, n) => if n == some name then some i else none

end Pattern

end MarkedValues.Regex
