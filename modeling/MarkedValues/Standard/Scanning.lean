import MarkedValues.Standard.Arguments
import MarkedValues.Value.Equality

/-!
Functions that look at elements one by one. A definite answer found on the way stands; otherwise an
unknown seen on the way leaves the answer unknown.
-/
namespace MarkedValues.Standard

/-- Whether some element equals the value; nothing while that is open. -/
def containsScan (v : Value) : (sawUnknown : Bool) → List Value → Option Bool
  | sawUnknown, [] => if sawUnknown then none else some false
  | sawUnknown, e :: es =>
    match (e.equals v).bool? with
    | some true => some true
    | some false => containsScan v sawUnknown es
    | none => containsScan v true es

def boolOrUnknown : Option Bool → Value
  | some b => .bool b
  | none => .unknownOf .bool

def containsBody : Body := fun _ args _ =>
  let list := argument args 0
  if !list.ty.isSequence then blame 0 ("argument must be list, tuple, or set, not " ++ list.ty.text)
  else .ok (boolOrUnknown (containsScan (argument args 1) false list.elements))

def contains : Function where
  name := "contains"
  params := [{ name := "list", ty := .dynamic }, { name := "value", ty := .dynamic }]
  rule := .fixed .bool
  notNull := true
  body := containsBody

inductive Found where
  | at (place : Nat)
  | undecided
  | nowhere

/-- The place of the first equal element; an element that may be equal stops the scan. -/
def indexScan (v : Value) (place : Nat) : List Value → Found
  | [] => .nowhere
  | e :: es =>
    match (e.equals v).bool? with
    | some true => .at place
    | some false => indexScan v (place + 1) es
    | none => .undecided

def indexBody : Body := fun _ args _ =>
  let list := argument args 0
  if !(list.ty.isList || list.ty.isTuple) then blame 0 "argument must be a list or tuple"
  else if list.elements.isEmpty then blame 0 "cannot search an empty list"
  else match indexScan (argument args 1) 0 list.elements with
  | .at place => .ok (.int place)
  | .undecided => .ok (.unknownOf .number)
  | .nowhere => .error (.ofMessage "item not found")

def index : Function where
  name := "index"
  params := [{ name := "list", ty := .dynamic }, { name := "value", ty := .dynamic }]
  rule := .fixed .number
  body := indexBody

/-- Whether the elements decide for `stop`: one that is `stop` does, and a null counts as
    `nullCounts` says. Without any, the answer is the other bool. -/
def boolScan (stop nullCounts : Bool) : (sawUnknown : Bool) → List Value → Option Bool
  | sawUnknown, [] => if sawUnknown then none else some (!stop)
  | sawUnknown, e :: es =>
    if e.isUnknown then boolScan stop nullCounts true es
    else if e.isNull then if nullCounts then some stop else boolScan stop nullCounts sawUnknown es
    else if e.bool? == some stop then some stop
    else boolScan stop nullCounts sawUnknown es

def boolList (name : String) (stop nullCounts : Bool) : Function where
  name := name
  params := [{ name := "list", ty := .list .bool }]
  rule := .fixed .bool
  body := fun _ args _ =>
    .ok (boolOrUnknown (boolScan stop nullCounts false (argument args 0).elements))

/-- Whether all elements are true; null counts as false. -/
def alltrue : Function := boolList "alltrue" false true

/-- Whether some element is true; null is passed over. -/
def anytrue : Function := boolList "anytrue" true false

def lengthType : Resolver := fun args =>
  match (argument args 0).ty with
  | .number | .bool =>
    blame 0 "argument must be a string, a collection type, or a structural type"
  | _ => .ok .number

/-- How long a value is; nothing while that is open. Tuples and objects have a length even when they
    are unknown. -/
def lengthOf (v : Value) : Option Nat :=
  match v.ty with
  | .dynamic => none
  | .tuple es => some es.length
  | .object attrs => some attrs.length
  | .string => v.string?.map String.length
  | _ => v.elementCount?

def length : Function where
  name := "length"
  params := [{ name := "value", ty := .dynamic, allow := { unknown := true, dynamicType := true } }]
  rule := .resolved lengthType
  body := fun _ args _ =>
    match lengthOf (argument args 0) with
    | some n => .ok (.int n)
    | none => .ok (.unknownOf .number)

def keysAndSearchsetType (args : List Value) : Outcome Ty :=
  unifyArguments [(1, (argument args 1).ty), (2, (argument args 2).ty)]
    "keys and searchset must be of the same type"

/-- Whether a key equals a candidate; the first that is open ends the scan. -/
def keyScan (key : Value) : List Value → Option Bool
  | [] => some false
  | c :: cs =>
    match (key.equals c).bool? with
    | some true => some true
    | some false => keyScan key cs
    | none => none

/-- The values whose keys are found; nothing while that is open for some key. -/
def matchingValues (search : List Value) : List (Value × Value) → Option (List Value)
  | [] => some []
  | (v, key) :: rest => do
    let found ← keyScan key search
    let others ← matchingValues search rest
    some (if found then v :: others else others)

def matchkeysBody : Body := fun _ args ret => do
  let values := argument args 0
  if values.elements.length ≠ (argument args 1).elements.length then
    .error (.ofMessage "length of keys and values should be equal")
  else
    let common ← keysAndSearchsetType args
    let keys ← convertAt 1 (argument args 1) common
    let searchset ← convertAt 2 (argument args 2) common
    let search := searchset.elements
    if search.isEmpty then .ok (.list ret.elementType [])
    else if !values.isWhollyKnown || !keys.isWhollyKnown then .ok (.unknownOf ret)
    else match matchingValues search (values.elements.zip keys.elements) with
    | some kept => .ok (.list ret.elementType kept)
    | none => .ok (.unknownOf ret)

/-- The values whose keys occur in a set to search, in their order. -/
def matchkeys : Function where
  name := "matchkeys"
  params := [{ name := "values", ty := .list .dynamic }, { name := "keys", ty := .list .dynamic },
    { name := "searchset", ty := .list .dynamic }]
  rule := .resolved fun args => do
    let _ ← keysAndSearchsetType args
    .ok (argument args 0).ty
  notNull := true
  body := matchkeysBody

end MarkedValues.Standard
