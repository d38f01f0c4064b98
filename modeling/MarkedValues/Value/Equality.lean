import MarkedValues.Value.Order

/-!
Equality of the domain. While parts of two values are unknown the answer may be open; a definite
difference anywhere decides against open parts elsewhere.
-/
namespace MarkedValues

/-- An answer that may have to wait. -/
inductive Verdict where
  | yes
  | no
  | undecided
  deriving DecidableEq

namespace Verdict

def ofBool (b : Bool) : Verdict := if b then yes else no

/-- Conjunction: `no` wins over `undecided`, which wins over `yes`. -/
def and : Verdict → Verdict → Verdict
  | no, _ => no
  | _, no => no
  | yes, b => b
  | undecided, _ => undecided

end Verdict

namespace Value

mutual

/-- Whether two values are equal, as far as it is known. -/
def compareTo : Value → Value → Verdict
  | .unknown .., .unknown .. => .undecided
  | .unknown _ notNull _, .null .. => if notNull then .no else .undecided
  | .null .., .unknown _ notNull _ => if notNull then .no else .undecided
  | .unknown .., _ => .undecided
  | .null .., .null .. => .yes
  | .null .., _ => .no
  | .scalar s _, b => match b with
    | .unknown .. => .undecided
    | .scalar t _ => .ofBool (s.same t)
    | _ => .no
  | .sequence k xs m, b => match b with
    | .unknown .. => .undecided
    | .sequence l ys n =>
      if Value.ty (.sequence k xs m) ≠ Value.ty (.sequence l ys n) then .no
      else if k matches .set _ then
        if xs.all isWhollyKnown && ys.all isWhollyKnown then
          .ofBool (xs.length == ys.length && xs.all fun e => ys.any fun f => f.same e)
        else .undecided
      else compareAll xs ys
    | _ => .no
  | .mapping k xs m, b => match b with
    | .unknown .. => .undecided
    | .mapping l ys n =>
      if Value.ty (.mapping k xs m) ≠ Value.ty (.mapping l ys n) then .no
      else if Dict.keys xs ≠ Dict.keys ys then .no
      else compareEntries xs ys
    | _ => .no

def compareAll : List Value → List Value → Verdict
  | [], [] => .yes
  | x :: xs, y :: ys => (compareTo x y).and (compareAll xs ys)
  | _, _ => .no

def compareEntries : List (String × Value) → List (String × Value) → Verdict
  | (_, x) :: xs, (_, y) :: ys => (compareTo x y).and (compareEntries xs ys)
  | _, _ => .yes

end

/-- The answer as a value: a bool, or an unknown bool that is not null, with the marks of both. -/
def equals (a b : Value) : Value :=
  let answer := match compareTo a b with
    | .yes => bool true
    | .no => bool false
    | .undecided => (unknownOf .bool).refineNotNull
  answer.withMarks (a.marks ∪ b.marks)

end Value

end MarkedValues
