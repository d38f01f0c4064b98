import MarkedValues.Ty.Convertible
import MarkedValues.Value.Set
import MarkedValues.Number.Decimal
import MarkedValues.Text.Quoted

/-!
Conversion of values between types. It may fail on the value (text that is no number), and the error
says where. Null and unknown convert to null and unknown of the target type, marks stay at every
level, and the `dynamic` parts of the target are filled in from the value's type first.
-/
namespace MarkedValues

inductive PathStep where
  | index (i : Nat)
  | key (k : String)
  deriving DecidableEq

inductive ConversionFault where
  | incompatible (source target : Ty)
  | invalidNumber
  | invalidBool
  | lengthMismatch (expected got : Nat)
  | missingAttribute (name : String)
  | unexpectedAttribute (name : String)
  | noCommonType
  deriving DecidableEq

/-- A conversion failure and the path from the value to the part at fault. -/
structure ConversionError where
  path : List PathStep
  fault : ConversionFault
  deriving DecidableEq

def PathStep.text : PathStep → String
  | .index i => "[" ++ toString i ++ "]"
  | .key k => "[" ++ Text.quoted k ++ "]"

def ConversionFault.message : ConversionFault → String
  | .incompatible source target => target.text ++ " required, but have " ++ source.text
  | .invalidNumber => "a number is required"
  | .invalidBool => "a bool is required"
  | .lengthMismatch expected got =>
    "a tuple of " ++ toString expected ++ " elements is required, but have " ++ toString got
  | .missingAttribute name => "attribute " ++ Text.quoted name ++ " is required"
  | .unexpectedAttribute name => "unsupported attribute " ++ Text.quoted name
  | .noCommonType => "all elements must have a consistent type"

namespace ConversionError

def message (e : ConversionError) : String :=
  if e.path.isEmpty then e.fault.message
  else String.join (e.path.map PathStep.text) ++ ": " ++ e.fault.message

def within (step : PathStep) (e : ConversionError) : ConversionError :=
  { e with path := step :: e.path }

end ConversionError

abbrev Converted := Except ConversionError Value

/-- An outcome as seen from the value that contains the part. -/
def Converted.within (step : PathStep) : Converted → Converted := Except.mapError (·.within step)

namespace Value

def fail (fault : ConversionFault) : Converted := .error ⟨[], fault⟩

def convertScalar (s : Scalar) (target : Ty) : Converted :=
  match s, target with
  | .number n, .string => .ok (string n.format)
  | .bool b, .string => .ok (string (if b then "true" else "false"))
  | .string s, .number => match Number.ofText? s with
    | some n => .ok (number n)
    | none => fail .invalidNumber
  | .string s, .bool =>
    if s = "true" then .ok (bool true)
    else if s = "false" then .ok (bool false)
    else fail .invalidBool
  | .string s, .string => .ok (string s)
  | .number n, .number => .ok (number n)
  | .bool b, .bool => .ok (bool b)
  | s, target => fail (.incompatible s.ty target)

/-- The first key that is not among the attribute names. -/
def unexpectedKey? (entries : List (String × Value)) (attrs : List (String × Ty)) : Option String :=
  (Dict.keys entries).find? fun k => !Dict.hasKey attrs k

/-- Each attribute of the target from the converter of its name, in the target's order. -/
def convertAttrs (converters : List (String × (Ty → Converted))) :
    List (String × Ty) → Except ConversionError (List (String × Value))
  | [] => .ok []
  | (k, t) :: rest =>
    match converters.lookup k with
    | none => .error ⟨[], .missingAttribute k⟩
    | some converter => do
      let w ← (converter t).within (.key k)
      let ws ← convertAttrs converters rest
      .ok ((k, w) :: ws)

mutual

def convert (v : Value) (target : Ty) : Converted :=
  if target.isDynamic || v.ty == target then .ok v
  else match Ty.conversionType v.ty target with
  | none => fail (.incompatible v.ty target)
  | some t => match v with
    | .null _ m => .ok (.null t m)
    | .unknown _ notNull m => .ok (.unknown t notNull m)
    | .scalar s m => do .ok ((← convertScalar s t).withMarks m)
    | .sequence kind es m => match t with
      | .list e => do .ok ((list e (← convertAll es 0 e)).withMarks m)
      | .set e => do .ok ((set e (← convertAll es 0 e)).withMarks m)
      | .tuple ts =>
        if es.length ≠ ts.length then fail (.lengthMismatch ts.length es.length)
        else do .ok ((tuple (← convertEach es 0 ts)).withMarks m)
      | t => fail (.incompatible (Value.ty (.sequence kind es m)) t)
    | .mapping kind es m => match t with
      | .map e => do .ok ((map e (← convertEntries es e)).withMarks m)
      | .object attrs =>
        match (if kind matches .map _ then unexpectedKey? es attrs else none) with
        | some k => fail (.unexpectedAttribute k)
        | none => do .ok ((object (← convertAttrs (converters es) attrs)).withMarks m)
      | t => fail (.incompatible (Value.ty (.mapping kind es m)) t)

/-- All elements, the first of them at index `i`, to one type. -/
def convertAll : List Value → (i : Nat) → Ty → Except ConversionError (List Value)
  | [], _, _ => .ok []
  | v :: vs, i, e => do
    let w ← (convert v e).within (.index i)
    let ws ← convertAll vs (i + 1) e
    .ok (w :: ws)

/-- Each element, the first of them at index `i`, to the type of its place. -/
def convertEach : List Value → (i : Nat) → List Ty → Except ConversionError (List Value)
  | v :: vs, i, t :: ts => do
    let w ← (convert v t).within (.index i)
    let ws ← convertEach vs (i + 1) ts
    .ok (w :: ws)
  | _, _, _ => .ok []

def convertEntries : List (String × Value) → Ty → Except ConversionError (List (String × Value))
  | [], _ => .ok []
  | (k, v) :: rest, e => do
    let w ← (convert v e).within (.key k)
    let ws ← convertEntries rest e
    .ok ((k, w) :: ws)

def converters : List (String × Value) → List (String × (Ty → Converted))
  | [] => []
  | (k, v) :: rest => (k, fun t => convert v t) :: converters rest

end

/-- The common type of the elements, `dynamic` for none. -/
def commonType (vs : List Value) : Except ConversionError Ty :=
  match Ty.unifyOrDynamic (vs.map ty) with
  | some t => .ok t
  | none => .error ⟨[], .noCommonType⟩

def listOf (elems : List Value) : Converted := do
  let e ← commonType elems
  .ok (list e (← convertAll elems 0 e))

def setOf (elems : List Value) : Converted := do
  let e ← commonType elems
  .ok (set e (← convertAll elems 0 e))

def mapOf (entries : Dict Value) : Converted := do
  let e ← commonType entries.values
  .ok (map e (← convertEntries entries e))

end Value

end MarkedValues
