import MarkedValues.Value.Order

/-!
Set algebra over lists of values. A set's content is sorted by `Value.order` with equal known
neighbours merged; unknowns are never merged, since they may turn out to be different values.
-/
namespace MarkedValues.Value

/-- Puts a value before the first that is not below it. -/
def insertOrdered (v : Value) : List Value → List Value
  | [] => [v]
  | w :: ws => if (order v w).isLE then v :: w :: ws else w :: insertOrdered v ws

/-- Stable sort into canonical order. -/
def sort (vs : List Value) : List Value := vs.foldr insertOrdered []

/-- Drops each known value that is the same as the last one kept. -/
def dropRepeats (last : Value) : List Value → List Value
  | [] => []
  | v :: vs => if v.isKnown && v.same last then dropRepeats last vs else v :: dropRepeats v vs

/-- Merges runs of equal known values into their first. -/
def mergeRuns : List Value → List Value
  | [] => []
  | v :: vs => v :: dropRepeats v vs

/-- The canonical content of a set with these elements. -/
def normalize (vs : List Value) : List Value := mergeRuns (sort vs)

/-- Membership by structure. Unknowns are members of nothing. -/
def memberOf (vs : List Value) (v : Value) : Bool := v.isKnown && vs.any fun e => e.same v

def union (xs ys : List Value) : List Value := normalize (xs ++ ys)
def intersection (xs ys : List Value) : List Value := xs.filter fun e => memberOf ys e
def subtract (xs ys : List Value) : List Value := xs.filter fun e => !memberOf ys e
def symmetricDifference (xs ys : List Value) : List Value :=
  normalize (subtract xs ys ++ subtract ys xs)

/-- A set. Marks found anywhere inside the elements move to the set. -/
def set (elem : Ty) (elems : List Value) : Value :=
  .sequence (.set elem) (normalize (elems.map erase)) (marksOfAll elems)

end MarkedValues.Value
