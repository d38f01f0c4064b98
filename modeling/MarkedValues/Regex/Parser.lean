import MarkedValues.Regex.Parts
import MarkedValues.Regex.Search

/-!
The text form of regular expressions. The reader goes through the text once; groups still open are
kept on a stack, each with the alternatives and items read so far and the flags that hold again
when it is closed.
-/
namespace MarkedValues.Regex

inductive GroupKind where
  | plain
  | capture (index : Nat) (name : Option String)

/-- A group being read. An item is nothing when it only set flags. -/
structure OpenGroup where
  kind : GroupKind
  outer : Flags
  alternatives : List Pattern
  items : List (Option Pattern)

structure ReadState where
  flags : Flags
  groupCount : Nat
  names : List String
  current : OpenGroup
  enclosing : List OpenGroup

namespace OpenGroup

def add (g : OpenGroup) (item : Option Pattern) : OpenGroup := { g with items := item :: g.items }

def sequence (g : OpenGroup) : Pattern :=
  match g.items.filterMap id with
  | [] => .empty
  | last :: before => before.foldl (fun p q => .cat q p) last

def nextAlternative (g : OpenGroup) : OpenGroup :=
  { g with alternatives := g.sequence :: g.alternatives, items := [] }

def close (g : OpenGroup) : Pattern :=
  let content := g.alternatives.foldl (fun p q => .alt q p) g.sequence
  match g.kind with
  | .plain => content
  | .capture i name => .group i name content

end OpenGroup

namespace ReadState

def start : ReadState := ⟨{}, 0, [], ⟨.plain, {}, [], []⟩, []⟩

def add (s : ReadState) (item : Option Pattern) : ReadState :=
  { s with current := s.current.add item }

/-- Repeats the last item, which must be there and be a pattern. -/
def repeatLast (s : ReadState) (min : Nat) (max : Option Nat) (lazy : Bool) : Option ReadState :=
  match s.current.items with
  | some p :: before =>
    let item := p.times min max (lazy == s.flags.swapGreed)
    some { s with current := { s.current with items := some item :: before } }
  | _ => none

/-- Begins a group; its flags end with it. -/
def enter (s : ReadState) (kind : GroupKind) (flags : Flags) : ReadState :=
  { s with
    flags := flags
    current := ⟨kind, s.flags, [], []⟩
    enclosing := s.current :: s.enclosing }

def enterCapture (s : ReadState) (name : Option String) : ReadState :=
  let s := { s with groupCount := s.groupCount + 1, names := name.toList ++ s.names }
  s.enter (.capture s.groupCount name) s.flags

def leave (s : ReadState) : Option ReadState :=
  match s.enclosing with
  | [] => none
  | g :: enclosing =>
    some { s with
      flags := s.current.outer
      current := g.add (some s.current.close)
      enclosing := enclosing }

end ReadState

/-- Behind an opening parenthesis: a named, plain or numbered group, or flags for the rest of the
    group around. There is no look-around. -/
def readGroup (s : ReadState) (cs : List Char) : Option (ReadState × List Char) :=
  let named := fun (rest : List Char) => do
    let (name, rest) ← readName rest
    if s.names.contains name then none else some (s.enterCapture (some name), rest)
  match s.flags.skip cs with
  | '?' :: '=' :: _ | '?' :: '!' :: _ | '?' :: '<' :: '=' :: _ | '?' :: '<' :: '!' :: _ => none
  | '?' :: 'P' :: '<' :: rest => named rest
  | '?' :: '<' :: rest => named rest
  | '?' :: rest =>
    match readFlags s.flags [] rest with
    | some ((flags, _), ':' :: rest) => some (s.enter .plain flags, rest)
    | some ((flags, true), ')' :: rest) => some ({ s.add none with flags := flags }, rest)
    | _ => none
  | rest => some (s.enterCapture none, rest)

def takeLazy : List Char → Bool × List Char
  | '?' :: cs => (true, cs)
  | cs => (false, cs)

def readStep (s : ReadState) : Reader ReadState
  | [] => none
  | c :: cs =>
    let repetition := fun (min : Nat) (max : Option Nat) (rest : List Char) =>
      let (lazy, rest) := takeLazy rest
      (s.repeatLast min max lazy).map fun s => (s, rest)
    match c with
    | '(' => readGroup s cs
    | ')' => s.leave.map fun s => (s, cs)
    | '|' => some ({ s with current := s.current.nextAlternative }, cs)
    | '[' => (readClass s.flags cs).map fun (cls, rest) => (s.add (some (.one cls)), rest)
    | '?' => repetition 0 (some 1) cs
    | '*' => repetition 0 none cs
    | '+' => repetition 1 none cs
    | '\x7b' => do
      let ((min, max), rest) ← readBounds s.flags cs
      repetition min max (s.flags.skip rest)
    | _ => do
      let (atom, rest) ← readAtom s.flags (c :: cs)
      let p ← atom.pattern? s.flags
      some (s.add (some p), rest)

/-- Reads to the end. Each step takes at least one character. -/
def readAll : (fuel : Nat) → ReadState → List Char → Option Pattern
  | 0, _, _ => none
  | fuel + 1, s, cs =>
    match s.flags.skip cs with
    | [] => if s.enclosing.isEmpty then some s.current.close else none
    | cs =>
      match readStep s cs with
      | some (s, rest) => readAll fuel s rest
      | none => none

def Pattern.ofText? (text : String) : Option Pattern :=
  let cs := text.toList
  readAll (cs.length + 1) .start cs

def Matcher.ofText? (text : String) : Option Matcher := (Pattern.ofText? text).map .ofPattern

end MarkedValues.Regex
