import MarkedValues.Regex.Program

/-!
Searching. Threads are kept in order of preference and move through the text together, each
instruction being entered at most once per position, so the time is bounded by the product of
program and text. The match found is the leftmost, and of those there the preferred one.
-/
namespace MarkedValues.Regex

/-- Positions noted so far, by slot. -/
abbrev Slots := Array (Option Nat)

/-- A thread waits at an instruction that takes a character or accepts. -/
structure Thread where
  label : Label
  slots : Slots

/-- Threads in order of preference, and which instructions have been entered at this position. -/
structure Front where
  threads : Array Thread
  entered : Array Bool

def Front.start (program : Program) : Front := ⟨#[], Array.replicate program.size false⟩

structure Place where
  position : Nat
  before : Option Char
  after : Option Char

/-- Follows a thread to all instructions where it waits. The depth is bounded by the number of
    instructions, since none is entered twice. -/
def follow (program : Program) (place : Place) : (depth : Nat) → Label → Slots → Front → Front
  | 0, _, _, front => front
  | depth + 1, label, slots, front =>
    if front.entered[label]?.getD true then front
    else
      let front := { front with entered := front.entered.setIfInBounds label true }
      match program[label]? with
      | none => front
      | some .accept | some (.one ..) =>
        { front with threads := front.threads.push ⟨label, slots⟩ }
      | some (.assert a next) =>
        if a.holds place.before place.after then follow program place depth next slots front
        else front
      | some (.note slot next) =>
        follow program place depth next (slots.setIfInBounds slot (some place.position)) front
      | some (.fork first second) =>
        follow program place depth second slots (follow program place depth first slots front)

def followFrom (program : Program) (place : Place) (label : Label) (slots : Slots) (front : Front) :
    Front :=
  follow program place (program.size + 1) label slots front

/-- Moves the threads over a character, in order. A thread that accepts gives the match and ends
    all those less preferred. -/
def advance (program : Program) (c : Option Char) (place : Place) :
    List Thread → Front → Option Slots × Front
  | [], front => (none, front)
  | t :: ts, front =>
    match program[t.label]? with
    | some .accept => (some t.slots, front)
    | some (.one cls next) =>
      let front := if c.any cls then followFrom program place next t.slots front else front
      advance program c place ts front
    | _ => advance program c place ts front

/-- Goes through the text from `position` on. A new thread starts at each position, after all
    others, until there is a match; the search ends when a match is known and no thread is left. -/
def run (program : Program) (entry : Label) (slots : Slots) :
    (text : List Char) → (position : Nat) → (before : Option Char) → (found : Option Slots) →
    Front → Option Slots
  | text, position, before, found, front =>
    let place := ⟨position, before, text.head?⟩
    let front := if found.isSome then front else followFrom program place entry slots front
    match text with
    | [] => ((advance program none place front.threads.toList (.start program)).1).or found
    | c :: rest =>
      if found.isSome && front.threads.isEmpty then found
      else
        let ahead := ⟨position + 1, some c, rest.head?⟩
        let (accepted, front) :=
          advance program (some c) ahead front.threads.toList (.start program)
        run program entry slots rest (position + 1) (some c) (accepted.or found) front
termination_by structural text => text

structure Matcher where
  pattern : Pattern
  code : Code

def Matcher.ofPattern (p : Pattern) : Matcher := ⟨p, p.compile⟩

/-- What the groups of a match cover, group zero being the whole match. -/
structure Match where
  slots : Slots

namespace Match

def span? (m : Match) (group : Nat) : Option (Nat × Nat) := do
  let start ← (m.slots[2 * group]?).join
  let stop ← (m.slots[2 * group + 1]?).join
  some (start, stop)

def span (m : Match) : Nat × Nat := (m.span? 0).getD (0, 0)

/-- The text that a group covers; nothing for a group that took no part. -/
def group? (m : Match) (text : List Char) (group : Nat) : Option (List Char) :=
  (m.span? group).map fun (start, stop) => (text.take stop).drop start

end Match

namespace Matcher

def findFrom (r : Matcher) (text : List Char) (start : Nat) : Option Match :=
  if text.length < start then none
  else
    let before := if start = 0 then none else text[start - 1]?
    let slots := Array.replicate (2 * (r.pattern.groupCount + 1)) none
    (run r.code.1 r.code.2 slots (text.drop start) start before none (.start r.code.1)).map .mk

def find (r : Matcher) (text : List Char) : Option Match := r.findFrom text 0

/-- Matches one after another. Each search begins where the last match ended; an empty match there
    is not taken, and the search begins one character later. -/
def findAllFrom (r : Matcher) (text : List Char) (start : Nat) (lastEnd : Option Nat) :
    (fuel : Nat) → List Match
  | 0 => []
  | fuel + 1 =>
    let first := r.findFrom text start
    let taken := match first with
      | some m =>
        if m.span.1 == m.span.2 && some m.span.2 == lastEnd then r.findFrom text (start + 1)
        else some m
      | none => none
    match taken with
    | none => []
    | some m => m :: r.findAllFrom text m.span.2 (some m.span.2) fuel

/-- All matches that do not overlap. At no position do more than two searches begin. -/
def findAll (r : Matcher) (text : List Char) : List Match :=
  r.findAllFrom text 0 none (2 * text.length + 2)

end Matcher

end MarkedValues.Regex
