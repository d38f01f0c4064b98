import MarkedValues.Standard.Sequences

/-!
Functions on maps and objects. A map stays a map; an object gives tuples and objects whose types
follow the attributes.
-/
namespace MarkedValues.Standard

def requireMapping (v : Value) (i : Nat) : Outcome Unit :=
  if v.ty.isMapping then .ok ()
  else blame i ("must have map or object type, not " ++ v.ty.text)

def keysType : Resolver := fun args => do
  requireMapping (argument args 0) 0
  match (argument args 0).ty with
  | .object attrs => .ok (.tuple (attrs.map fun _ => .string))
  | _ => .ok (.list .string)

def keys : Function where
  name := "keys"
  params := [{ name := "inputMap", ty := .dynamic }]
  rule := .resolved keysType
  notNull := true
  body := fun _ args ret =>
    .ok (sequenceLike ret ((Dict.keys (argument args 0).entries).map .string))

def valuesType : Resolver := fun args => do
  requireMapping (argument args 0) 0
  match (argument args 0).ty with
  | .object attrs => .ok (.tuple (Dict.values attrs))
  | t => .ok (.list t.elementType)

def values : Function where
  name := "values"
  params := [{ name := "mapping", ty := .dynamic }]
  rule := .resolved valuesType
  notNull := true
  body := fun _ args ret => .ok (sequenceLike ret (Dict.values (argument args 0).entries))

def lookupType : Resolver := fun args => do
  if 3 < args.length then blame 3 "lookup() with too many arguments"
  else
    requireMapping (argument args 0) 0
    let default := args[2]?.map Value.ty
    match (argument args 0).ty with
    | .map e =>
      match default with
      | none => .ok e
      | some d =>
        match Ty.unify [e, d] with
        | some t => .ok t
        | none => .error (.ofFault (.typeUnification
            "the default value must have the same type as the map elements"))
    | .object attrs =>
      let attr := (argument args 1).string?.bind fun k => attrs.lookup k
      .ok ((attr.or default).getD .dynamic)
    | _ => .ok .dynamic

def lookupBody : Body := fun _ args ret => do
  let key ← textAt args 1
  match (argument args 0).entries.lookup key, args[2]? with
  | some v, _ => convertAt 0 v ret
  | none, some default => convertAt 2 default ret
  | none, none => blame 1 ("lookup failed to find key " ++ Text.quoted key)

/-- The value of a key, or a default when the key is not there. -/
def lookup : Function where
  name := "lookup"
  params := [{ name := "inputMap", ty := .dynamic }, { name := "key", ty := .string }]
  varParam := some
    { name := "default", ty := .dynamic,
      allow := { null := true, unknown := true, dynamicType := true } }
  rule := .resolved lookupType
  body := lookupBody

def zipmapType : Resolver := fun args =>
  match (argument args 1).ty with
  | .list e => .ok (.map e)
  | .tuple es =>
    match (argument args 0).elements? with
    | some keys =>
      if keys.all Value.isKnown then
        .ok (.objectOf ((keys.zip es).filterMap fun (k, t) => k.string?.map fun s => (s, t)))
      else .ok .dynamic
    | none => .ok .dynamic
  | t => blame 1 ("values argument must be a list or tuple, not " ++ t.text)

def zipmapBody : Body := fun _ args ret =>
  let keys := (argument args 0).elements
  let values := (argument args 1).elements
  if keys.length ≠ values.length then
    .error (.ofMessage ("number of keys (" ++ toString keys.length ++
      ") does not match number of values (" ++ toString values.length ++ ")"))
  else if !keys.all Value.isKnown then .ok (.unknownOf ret)
  else match stringsFrom 0 keys with
  | .error place => blame 0 ("key " ++ toString place ++ " is null")
  | .ok names =>
    match ret with
    | .map e => .ok (.map e (names.zip values))
    | _ => .ok (.object (names.zip values))

def zipmap : Function where
  name := "zipmap"
  params := [{ name := "keys", ty := .list .string }, { name := "values", ty := .dynamic }]
  rule := .resolved zipmapType
  notNull := true
  body := zipmapBody

def firstNoMapping (args : List Value) : Option (Nat × Value) :=
  (numbered 0 args).find? fun a => !(a.2.ty.isDynamic || a.2.ty.isMapping)

/-- The attribute types of an argument, those of a map only when its entries are known. -/
def attributeTypesOf (v : Value) : Option (List (String × Ty)) :=
  match v.ty with
  | .object attrs => some attrs
  | _ => v.entries?.map (·.map fun e => (e.1, e.2.ty))

def mergeType : Resolver := fun args =>
  match firstNoMapping args with
  | some (i, v) => blame i ("arguments must be maps or objects, got " ++ v.ty.text)
  | none =>
    let present := args.filter fun v => !v.isNull
    let common :=
      if present.all (·.ty.isMap) then Ty.unify (present.map (·.ty.elementType)) else none
    match common with
    | some e => .ok (.map e)
    | none =>
      match allSome (present.map attributeTypesOf) with
      | some attrs => .ok (.objectOf attrs.flatten)
      | none => .ok .dynamic

def convertValues (e : Ty) (entries : Dict Value) : Outcome (Dict Value) :=
  entries.mapM fun (k, v) => do
    .ok (k, ← (Value.convert v e).mapError CallError.ofConversion)

def mergeBody : Body := fun _ args ret =>
  let present := args.filter fun v => !v.isNull
  let entries := Dict.ofList (present.flatMap Value.entries)
  match ret with
  | .map e => do .ok (.map e (← convertValues e entries))
  | _ => .ok (.object entries)

/-- All entries of the arguments; of those with one key the last, and null
    arguments count as empty. -/
def merge : Function where
  name := "merge"
  varParam := some { name := "maps", ty := .dynamic, allow := { null := true } }
  rule := .resolved mergeType
  notNull := true
  body := mergeBody

/-- Each string in the lists with the key of its list; nothing when something else is in them. -/
def pairsOf (entries : Dict Value) : Option (List (String × String)) :=
  (allSome (entries.map fun (outer, list) => do
    allSome ((← list.elements?).map fun v => v.string?.map fun s => (s, outer)))).map List.flatten

def Pivot.add (pivot : Dict (List String)) (pair : String × String) : Dict (List String) :=
  pivot.insert pair.1 ((pivot.lookup pair.1).getD [] ++ [pair.2])

/-- For each string, the keys whose lists hold it. -/
def pivotOf (pairs : List (String × String)) : Dict (List String) := pairs.foldl Pivot.add []

def transposeBody : Body := fun _ args ret =>
  let v := argument args 0
  if !v.isWhollyKnown then .ok (.unknownOf ret)
  else match pairsOf v.entries with
  | none => blame 0 "input must be a map of lists of strings"
  | some pairs =>
    .ok (.map (.list .string)
      ((pivotOf pairs).map fun (k, outers) => (k, .stringList (sortStrings outers))))

/-- A map of lists with keys and values exchanged. -/
def transpose : Function where
  name := "transpose"
  params := [{ name := "values", ty := .map (.list .string) }]
  rule := .fixed (.map (.list .string))
  notNull := true
  body := transposeBody

end MarkedValues.Standard
