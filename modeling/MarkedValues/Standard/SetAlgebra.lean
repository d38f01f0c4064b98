import MarkedValues.Standard.Arguments

/-!
Set algebra on sets whose element types have a common type. The sets are converted to it and
combined from left to right. Only the union bears unknown elements; the other operations wait until
every set is wholly known, since an element resolved later could change who is a member.
-/
namespace MarkedValues.Standard

abbrev SetOperation := List Value → List Value → List Value

/-- An empty set of dynamic elements, which fits every type. -/
def isEmptyLiteral (v : Value) : Bool := v.ty.elementType.isDynamic && v.elementCount? == some 0

def setOperationType : Resolver := fun args =>
  let types := (numbered 0 args).filterMap fun (i, v) =>
    if isEmptyLiteral v then none else some (i, v.ty.elementType)
  if types.isEmpty then .ok (.set .dynamic)
  else do .ok (.set (← unifyArguments types "given sets must all have compatible element types"))

/-- Combines the elements of the sets from place `i` on; nothing when the result is unknown. -/
def combineFrom (ret : Ty) (op : SetOperation) (bearsUnknown : Bool) :
    (i : Nat) → (acc : Option (List Value)) → List Value → Outcome (Option (List Value))
  | _, acc, [] => .ok (some (acc.getD []))
  | i, acc, arg :: rest => do
    let v ← convertAt i arg ret
    if v.isUnknown || (!bearsUnknown && !v.isWhollyKnown) then .ok none
    else
      let next := match acc with
        | none => v.elements
        | some elems => op elems v.elements
      combineFrom ret op bearsUnknown (i + 1) (some next) rest

def setBody (op : SetOperation) (bearsUnknown : Bool) : Body := fun _ args ret => do
  match ← combineFrom ret op bearsUnknown 0 none args with
  | some elems => .ok (.set ret.elementType elems)
  | none => .ok (.unknownOf ret)

def setParam (name : String) : Param :=
  { name := name, ty := .set .dynamic, allow := { dynamicType := true } }

def setFunction (name : String) (op : SetOperation) (bearsUnknown : Bool) : Function where
  name := name
  params := [setParam "first_set"]
  varParam := some (setParam "other_sets")
  rule := .resolved setOperationType
  notNull := true
  body := setBody op bearsUnknown

def setunion : Function := setFunction "setunion" Value.union true

def setintersection : Function := setFunction "setintersection" Value.intersection false

/-- The elements of an odd number of the sets. -/
def setsymmetricdifference : Function :=
  setFunction "setsymmetricdifference" Value.symmetricDifference false

def compliment : Function := setFunction "compliment" Value.subtract false

def setsubtract : Function where
  name := "setsubtract"
  params := [setParam "a", setParam "b"]
  rule := .resolved setOperationType
  notNull := true
  body := setBody Value.subtract false

end MarkedValues.Standard
