import MarkedValues.Standard.Arguments
import MarkedValues.Value.Equality

/-!
Functions on lists and tuples. A list stays a list of its type; a tuple gives a tuple whose types
follow the elements.
-/
namespace MarkedValues.Standard

def sequenceLike (t : Ty) (elems : List Value) : Value :=
  match t with
  | .list e => .list e elems
  | _ => .tuple elems

def requireSequence (v : Value) (i : Nat) : Outcome Unit :=
  if v.ty.isList || v.ty.isTuple then .ok ()
  else blame i ("argument must be a list or tuple, not " ++ v.ty.text)

def firstNoSequence (args : List Value) : Option (Nat × Value) :=
  (numbered 0 args).find? fun a => !(a.2.ty.isList || a.2.ty.isTuple)

/-- The element types of an argument, those of a list only when its elements are known. -/
def elementTypesOf (v : Value) : Option (List Ty) :=
  match v.ty with
  | .tuple es => some es
  | _ => v.elements?.map (·.map Value.ty)

def concatType : Resolver := fun args =>
  if args.isEmpty then .error (.ofMessage "at least one argument is required")
  else match firstNoSequence args with
  | some (i, v) => blame i ("all arguments must be lists or tuples; got " ++ v.ty.text)
  | none =>
    let common :=
      if args.all (·.ty.isList) then Ty.unify (args.map (·.ty.elementType)) else none
    match common with
    | some e => .ok (.list e)
    | none =>
      match allSome (args.map elementTypesOf) with
      | some ess => .ok (.tuple ess.flatten)
      | none => .ok .dynamic

/-- Every element converted, a failure blamed on the argument that holds it. -/
def convertElements (i : Nat) (e : Ty) (vs : List Value) : Outcome (List Value) :=
  vs.mapM fun v => convertAt i v e

def concatBody : Body := fun _ args ret =>
  match ret with
  | .list e => do
    let parts ← (numbered 0 args).mapM fun (i, v) => convertElements i e v.elements
    .ok (.list e parts.flatten)
  | _ => .ok (.tuple (args.flatMap Value.elements))

def concat : Function where
  name := "concat"
  varParam := some { name := "seqs", ty := .dynamic }
  rule := .resolved concatType
  notNull := true
  body := concatBody

def distinctFrom (kept : List Value) : List Value → List Value
  | [] => []
  | v :: vs =>
    if kept.any fun seen => (seen.equals v).bool? == some true then distinctFrom kept vs
    else v :: distinctFrom (kept ++ [v]) vs

/-- The list without repetitions, each element at its first place. -/
def distinct : Function where
  name := "distinct"
  params := [{ name := "list", ty := .list .dynamic }]
  rule := .resolved typeOfFirst
  notNull := true
  body := fun _ args ret =>
    let list := argument args 0
    if list.isWhollyKnown then .ok (.list ret.elementType (distinctFrom [] list.elements))
    else .ok (.unknownOf ret)

def compact : Function where
  name := "compact"
  params := [{ name := "list", ty := .list .string }]
  rule := .fixed (.list .string)
  notNull := true
  body := fun _ args ret =>
    let list := argument args 0
    if list.isWhollyKnown then
      .ok (.list .string (list.elements.filter fun v => !v.isNull && v.string? != some ""))
    else .ok (.unknownOf ret)

/-- The strings of a list, or the place of the first element that is none. -/
def stringsFrom (place : Nat) : List Value → Except Nat (List String)
  | [] => .ok []
  | v :: vs =>
    match v.string? with
    | some s => do .ok (s :: (← stringsFrom (place + 1) vs))
    | none => .error place

def insertString (s : String) : List String → List String
  | [] => [s]
  | t :: ts => if s ≤ t then s :: t :: ts else t :: insertString s ts

def sortStrings (ss : List String) : List String := ss.foldr insertString []

def sortBody : Body := fun _ args ret =>
  let list := argument args 0
  if !list.isWhollyKnown then .ok (.unknownOf ret)
  else match stringsFrom 0 list.elements with
  | .ok ss => .ok (.stringList (sortStrings ss))
  | .error place =>
    blame 0 ("given list element " ++ toString place ++ " is null; a null string cannot be sorted")

def sort : Function where
  name := "sort"
  params := [{ name := "list", ty := .list .string }]
  rule := .fixed (.list .string)
  notNull := true
  body := sortBody

/-- The elements in pieces of a size; the last piece may be shorter. -/
def chunks (size : Nat) : (fuel : Nat) → List Value → List (List Value)
  | 0, _ => []
  | _, [] => []
  | fuel + 1, vs => vs.take size :: chunks size fuel (vs.drop size)

def chunklistBody : Body := fun _ args ret => do
  let size ← wholeAt args 1
  let elems := (argument args 0).elements
  let item := ret.elementType
  if size < 0 then blame 1 "the size argument must be positive"
  else
    let pieces := if size = 0 then [elems] else chunks size.toNat elems.length elems
    .ok (.list item (pieces.map (.list item.elementType)))

/-- A list of lists of at most so many elements; a size of zero keeps all together. -/
def chunklist : Function where
  name := "chunklist"
  params := [{ name := "list", ty := .list .dynamic }, { name := "size", ty := .number }]
  rule := .resolved fun args => .ok (.list (argument args 0).ty)
  notNull := true
  body := chunklistBody

def reverseType : Resolver := fun args => do
  requireSequence (argument args 0) 0
  match (argument args 0).ty with
  | .tuple es => .ok (.tuple es.reverse)
  | t => .ok t

def reverse : Function where
  name := "reverse"
  params := [{ name := "list", ty := .dynamic }]
  rule := .resolved reverseType
  notNull := true
  body := fun _ args ret => .ok (sequenceLike ret (argument args 0).elements.reverse)

def elementTypeAt : Resolver := fun args => do
  requireSequence (argument args 0) 0
  match (argument args 0).ty with
  | .tuple es =>
    match (argument args 1).int? with
    | some i =>
      if es.isEmpty || i < 0 then .ok .dynamic else .ok (es.getD (i.toNat % es.length) .dynamic)
    | none => .ok .dynamic
  | t => .ok t.elementType

def elementBody : Body := fun _ args _ => do
  let elems := (argument args 0).elements
  if elems.isEmpty then blame 0 "cannot use element function with an empty list"
  else
    let i ← wholeAt args 1
    if i < 0 then blame 1 "cannot use element function with a negative index"
    else .ok (elems.getD (i.toNat % elems.length) .dynamic)

/-- The element at an index, which starts again at zero past the end. -/
def element : Function where
  name := "element"
  params := [{ name := "list", ty := .dynamic }, { name := "index", ty := .number }]
  rule := .resolved elementTypeAt
  body := elementBody

/-- Where a slice of a sequence of this length begins and ends. -/
def sliceBounds (args : List Value) (length : Nat) : Outcome (Nat × Nat) := do
  let start ← wholeAt args 1
  let stop ← wholeAt args 2
  if start < 0 then blame 1 "start index must not be less than zero"
  else if stop < 0 then blame 2 "end index must not be less than zero"
  else if length < stop then
    blame 2 "end index must not be greater than the length of the list"
  else if stop < start then blame 1 "start index must not be greater than end index"
  else .ok (start.toNat, stop.toNat)

def sliceType : Resolver := fun args => do
  requireSequence (argument args 0) 0
  match (argument args 0).ty with
  | .tuple es =>
    if (argument args 1).isUnknown || (argument args 2).isUnknown then .ok .dynamic
    else
      let (start, stop) ← sliceBounds args es.length
      .ok (.tuple ((es.take stop).drop start))
  | t => .ok t

def sliceBody : Body := fun _ args ret => do
  let elems := (argument args 0).elements
  let (start, stop) ← sliceBounds args elems.length
  .ok (sequenceLike ret ((elems.take stop).drop start))

/-- The elements from a start index up to but not including an end index. -/
def slice : Function where
  name := "slice"
  params := [{ name := "list", ty := .dynamic }, { name := "start_index", ty := .number },
    { name := "end_index", ty := .number }]
  rule := .resolved sliceType
  notNull := true
  body := sliceBody

mutual

/-- The value itself, or the leaves of a known sequence. -/
def leaves : Value → List Value
  | .sequence _ es _ => leavesOfAll es
  | v => [v]

def leavesOfAll : List Value → List Value
  | [] => []
  | v :: vs => leaves v ++ leavesOfAll vs

end

def flattenType : Resolver := fun args =>
  let v := argument args 0
  if !v.ty.isSequence then blame 0 ("can only flatten lists, sets and tuples, not " ++ v.ty.text)
  else if !v.isWhollyKnown then .ok .dynamic
  else .ok (.tuple ((leavesOfAll v.elements).map Value.ty))

/-- The tuple of all elements that are no sequences, at any depth. -/
def flatten : Function where
  name := "flatten"
  params := [{ name := "list", ty := .dynamic }]
  rule := .resolved flattenType
  notNull := true
  body := fun _ args ret =>
    let v := argument args 0
    if v.isWhollyKnown then .ok (.tuple (leavesOfAll v.elements)) else .ok (.unknownOf ret)

end MarkedValues.Standard
