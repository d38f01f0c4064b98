import MarkedValues.Standard.Arguments

/-!
Conversions by name. They take a value in any state; null and unknown convert to null and unknown
of the target type, and marks stay where they are.
-/
namespace MarkedValues.Standard

/-- What a failed conversion says: text that is no number or bool is shown. -/
def castMessage (v : Value) (ret : Ty) (e : ConversionError) : String :=
  let wholeText := if e.path.isEmpty then v.string? else none
  match e.fault, wholeText with
  | .invalidNumber, some s =>
    "cannot convert " ++ Text.quoted s ++
      " to number; given string must be a decimal representation of a number"
  | .invalidBool, some s =>
    "cannot convert " ++ Text.quoted s ++
      " to bool; only the strings \"true\" or \"false\" are allowed"
  | _, _ => "cannot convert " ++ v.ty.text ++ " to " ++ ret.text ++ ": " ++ e.message

/-- The conversion of any value to a type whose open parts follow the value. -/
def cast (name : String) (target : Ty) : Function where
  name := name
  params := [{ name := "v", ty := .dynamic, allow := .all }]
  rule := .resolved fun args =>
    let source := (argument args 0).ty
    if source.isDynamic then .ok target
    else match Ty.conversionType source target with
    | some t => .ok t
    | none => blame 0 ("cannot convert " ++ source.text ++ " to " ++ target.text)
  body := fun _ args ret =>
    let v := argument args 0
    match Value.convert v ret with
    | .ok w => .ok w
    | .error e => blame 0 (castMessage v ret e)

def tostring : Function := cast "tostring" .string
def tonumber : Function := cast "tonumber" .number
def tobool : Function := cast "tobool" .bool
def tolist : Function := cast "tolist" (.list .dynamic)
def toset : Function := cast "toset" (.set .dynamic)
def tomap : Function := cast "tomap" (.map .dynamic)

end MarkedValues.Standard
