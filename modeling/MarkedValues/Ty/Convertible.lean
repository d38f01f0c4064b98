import MarkedValues.Ty.Unify

/-!
Which types convert to which. `conversionType source target` is the type a value of `source` has
after conversion to `target`: the target with its `dynamic` parts filled in from the source.
-/
namespace MarkedValues.Ty

/-- The element type of a collection made from elements of several types: their common type where
    it is left open, else the given one if each of them has a target. -/
def elementTarget (sources : List Ty) (elem : Ty) (target : Ty → Option Ty) : Option Ty :=
  if elem.isDynamic then unifyOrDynamic sources
  else if sources.all fun f => (target f).isSome then some elem
  else none

mutual

/-- The type after conversion, or nothing when no value of `source` converts to `target`. -/
def conversionType (source : Ty) : (target : Ty) → Option Ty
  | .dynamic => some source
  | .string =>
    if source.isDynamic || source.isPrimitive then some .string else none
  | .number =>
    if source.isDynamic || source == .number || source == .string then some .number else none
  | .bool =>
    if source.isDynamic || source == .bool || source == .string then some .bool else none
  | .list e =>
    if source.isDynamic || source == .list e then some (.list e)
    else match source with
    | .list f | .set f => (conversionType f e).map .list
    | .tuple fs => (elementTarget fs e fun f => conversionType f e).map .list
    | _ => none
  | .set e =>
    if source.isDynamic || source == .set e then some (.set e)
    else match source with
    | .list f | .set f => (conversionType f e).map .set
    | .tuple fs => (elementTarget fs e fun f => conversionType f e).map .set
    | _ => none
  | .map e =>
    if source.isDynamic || source == .map e then some (.map e)
    else match source with
    | .map f => (conversionType f e).map .map
    | .object attrs => (elementTarget (Dict.values attrs) e fun f => conversionType f e).map .map
    | _ => none
  | .tuple ts =>
    if source.isDynamic || source == .tuple ts then some (.tuple ts)
    else match source with
    | .tuple fs => if fs.length == ts.length then (conversionTypes fs ts).map .tuple else none
    | .list f | .set f => (conversionTypes (List.replicate ts.length f) ts).map .tuple
    | _ => none
  | .object attrs =>
    if source.isDynamic || source == .object attrs then some (.object attrs)
    else match source with
    | .object fields => (conversionAttrs (fields.lookup ·) attrs).map .object
    | .map f => (conversionAttrs (fun _ => some f) attrs).map .object
    | _ => none

/-- Place by place, up to the end of the shorter list. -/
def conversionTypes : (sources targets : List Ty) → Option (List Ty)
  | f :: fs, t :: ts => do
    let u ← conversionType f t
    let us ← conversionTypes fs ts
    some (u :: us)
  | _, _ => some []

/-- Each target attribute from the source type of its name. -/
def conversionAttrs (source : String → Option Ty) : List (String × Ty) → Option (List (String × Ty))
  | [] => some []
  | (k, t) :: rest => do
    let f ← source k
    let u ← conversionType f t
    let us ← conversionAttrs source rest
    some ((k, u) :: us)

end

/-- `actual` is `declared` with its `dynamic` parts filled in. -/
def Fills (actual declared : Ty) : Prop := conversionType actual declared = some actual

example : conversionType (.tuple [.number, .bool]) (.list .dynamic) = some (.list .string) := by
  decide +kernel

end MarkedValues.Ty
