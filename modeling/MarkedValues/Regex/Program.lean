import MarkedValues.Regex.Pattern

/-!
Patterns as programs for a machine that follows all alternatives at once. A program is built from
its end: each pattern is compiled with the place to go on from when it has matched.
-/
namespace MarkedValues.Regex

abbrev Label := Nat

inductive Instruction where
  | accept
  /-- Takes one character of the class. -/
  | one (cls : CharClass) (next : Label)
  | assert (a : Assertion) (next : Label)
  /-- Notes the position in a slot. -/
  | note (slot : Nat) (next : Label)
  /-- Both ways, the first preferred. -/
  | fork (first second : Label)
  deriving Inhabited

abbrev Program := Array Instruction

/-- A program under construction, with the place to enter it. -/
abbrev Code := Program × Label

def emit (instruction : Instruction) (program : Program) : Code :=
  (program.push instruction, program.size)

/-- A fork that prefers to go on when greedy and to leave when not. -/
def forkTo (greedy : Bool) (on leave : Label) : Instruction :=
  if greedy then .fork on leave else .fork leave on

/-- Applies a compilation step `n` times, each before the last. -/
def emitTimes (step : Code → Code) : (n : Nat) → Code → Code
  | 0, code => code
  | n + 1, code => emitTimes step n (step code)

/-- Once or more. The fork behind the body is placed first and aimed once the body stands. -/
def emitLoop (greedy : Bool) (body : Code → Code) (code : Code) : Code :=
  let (program, leave) := code
  let (program, back) := emit .accept program
  let (program, start) := body (program, back)
  (program.setIfInBounds back (forkTo greedy start leave), start)

/-- Up to `n` times, each time possible only after the one before. -/
def emitOptional (greedy : Bool) (body : Code → Code) (leave : Label) : (n : Nat) → Code → Code
  | 0, code => code
  | n + 1, code =>
    let (program, start) := body (emitOptional greedy body leave n code)
    emit (forkTo greedy start leave) program

/-- Compiles a pattern in front of a program; what matches goes on from the label in `code`. -/
def Pattern.compileBefore : Pattern → Code → Code
  | .empty, code => code
  | .one cls, (program, next) => emit (.one cls next) program
  | .assert a, (program, next) => emit (.assert a next) program
  | .cat p q, code => p.compileBefore (q.compileBefore code)
  | .alt p q, (program, next) =>
    let (program, second) := q.compileBefore (program, next)
    let (program, first) := p.compileBefore (program, next)
    emit (.fork first second) program
  | .group i _ p, (program, next) =>
    let (program, start) := p.compileBefore (emit (.note (2 * i + 1) next) program)
    emit (.note (2 * i) start) program
  | .repeat min none greedy p, (program, leave) =>
    let loop := emitLoop greedy p.compileBefore (program, leave)
    match min with
    | 0 => emit (forkTo greedy loop.2 leave) loop.1
    | n + 1 => emitTimes p.compileBefore n loop
  | .repeat min (some max) greedy p, (program, leave) =>
    emitTimes p.compileBefore min
      (emitOptional greedy p.compileBefore leave (max - min) (program, leave))

def Pattern.compile (p : Pattern) : Code :=
  (Pattern.group 0 none p).compileBefore (#[.accept], 0)

end MarkedValues.Regex
