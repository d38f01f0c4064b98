import MarkedValues.Value.Marks

/-!
Two relations on values that are not equality of the domain. `same` compares structure: state, type,
refinement, marks and content, numbers by numeric equality. `order` ranks all values for the
canonical order of set content: known before null before unknown, then by type, then by content,
blind to marks and refinements.
-/
namespace MarkedValues

def Scalar.same : Scalar → Scalar → Bool
  | .string a, .string b => a == b
  | .number a, .number b => a.same b
  | .bool a, .bool b => a == b
  | _, _ => false

/-- Content order: text by code points, numbers by the total order of words, false before true. -/
def Scalar.order : Scalar → Scalar → Ordering
  | .string a, .string b => compare a b
  | .number a, .number b => a.order b
  | .bool a, .bool b => compare a.toNat b.toNat
  | _, _ => .eq

namespace Value

mutual

def same : Value → Value → Bool
  | .null t m, .null u n => t == u && m == n
  | .unknown t r m, .unknown u q n => t == u && r == q && m == n
  | .scalar s m, .scalar t n => s.same t && m == n
  | .sequence k xs m, .sequence l ys n => k == l && sameAll xs ys && m == n
  | .mapping k xs m, .mapping l ys n => k == l && sameEntries xs ys && m == n
  | _, _ => false

def sameAll : List Value → List Value → Bool
  | [], [] => true
  | x :: xs, y :: ys => x.same y && sameAll xs ys
  | _, _ => false

def sameEntries : List (String × Value) → List (String × Value) → Bool
  | [], [] => true
  | (k, x) :: xs, (l, y) :: ys => k == l && x.same y && sameEntries xs ys
  | _, _ => false

end

def stateRank : Value → Nat
  | .null .. => 1
  | .unknown .. => 2
  | _ => 0

mutual

def order (a b : Value) : Ordering :=
  ((compare a.stateRank b.stateRank).then (Ty.order a.ty b.ty)).then <|
    match a, b with
    | .scalar s _, .scalar t _ => s.order t
    | .sequence _ xs _, .sequence _ ys _ => orderAll xs ys
    | .mapping _ xs _, .mapping _ ys _ =>
      (compare (Dict.keys xs) (Dict.keys ys)).then (orderValues xs ys)
    | _, _ => .eq

def orderAll : List Value → List Value → Ordering
  | [], [] => .eq
  | [], _ :: _ => .lt
  | _ :: _, [] => .gt
  | x :: xs, y :: ys => (order x y).then (orderAll xs ys)

def orderValues : List (String × Value) → List (String × Value) → Ordering
  | (_, x) :: xs, (_, y) :: ys => (order x y).then (orderValues xs ys)
  | _, _ => .eq

end

end Value

end MarkedValues
