import MarkedValues.Call.Context
import MarkedValues.Call.Fault

/-!
Functions: parameters that say which arguments they take as they are, a rule for the type of the
result, and a body that sees only what the parameters take.
-/
namespace MarkedValues

/-- The states of an argument that a parameter takes as they are. -/
structure Allow where
  unknown : Bool := false
  null : Bool := false
  marked : Bool := false
  dynamicType : Bool := false
  deriving DecidableEq

namespace Allow

def all : Allow := ⟨true, true, true, true⟩

def or (a b : Allow) : Allow :=
  ⟨a.unknown || b.unknown, a.null || b.null, a.marked || b.marked, a.dynamicType || b.dynamicType⟩

/-- The states as a number: unknown 1, null 2, marked 4, dynamic type 8. -/
def bits (a : Allow) : Nat :=
  a.unknown.toNat + 2 * a.null.toNat + 4 * a.marked.toNat + 8 * a.dynamicType.toNat

end Allow

structure Param where
  name : String
  ty : Ty
  allow : Allow := {}
  description : String := ""
  deriving DecidableEq

abbrev Resolver := List Value → Outcome Ty
abbrev Body := Context → List Value → Ty → Outcome Value

inductive ReturnRule where
  | fixed (ty : Ty)
  | resolved (resolve : Resolver)

structure Function where
  name : String
  params : List Param := []
  varParam : Option Param := none
  rule : ReturnRule
  body : Body
  /-- The result is never null; unknown results of the call then say so. -/
  notNull : Bool := false
  description : String := ""

namespace Function

def paramFor (f : Function) (i : Nat) : Option Param := f.params[i]?.or f.varParam

/-- The result type when it does not depend on the arguments. -/
def fixedType? (f : Function) : Option Ty :=
  match f.rule with
  | .fixed t => some t
  | .resolved _ => none

def describe (f : Function) : String :=
  let fixed := f.params.map fun p => p.name ++ ": " ++ p.ty.text
  let rest := f.varParam.toList.map fun p => p.name ++ "...: " ++ p.ty.text
  f.name ++ "(" ++ ", ".intercalate (fixed ++ rest) ++ ")"

end Function

end MarkedValues
