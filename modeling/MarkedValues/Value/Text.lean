import MarkedValues.Value.Marks
import MarkedValues.Number.Decimal
import MarkedValues.Text.Quoted

/-!
Two texts of a value. `display` is for readers: content without types, nothing at all of what is
marked sensitive. `describe` is for developers: state, kind, content and marks of every part.
-/
namespace MarkedValues.Value

open Text (quoted)

def braced (parts : List String) : String := "\x7b" ++ ", ".intercalate parts ++ "\x7d"
def bracketed (parts : List String) : String := "[" ++ ", ".intercalate parts ++ "]"

mutual

def display (v : Value) : String :=
  if v.hasMark sensitiveMark then "(sensitive value)"
  else match v with
  | .null .. => "null"
  | .unknown .. => "(unknown)"
  | .scalar (.string s) _ => quoted s
  | .scalar (.number n) _ => n.format
  | .scalar (.bool b) _ => toString b
  | .sequence _ es _ => bracketed (displayAll es)
  | .mapping _ es _ => braced (displayEntries es)

def displayAll : List Value → List String
  | [] => []
  | v :: vs => v.display :: displayAll vs

def displayEntries : List (String × Value) → List String
  | [] => []
  | (k, v) :: rest => (quoted k ++ ": " ++ v.display) :: displayEntries rest

end

def kindName : Value → String
  | .null .. => "Null"
  | .unknown .. => "Unknown"
  | .scalar (.string _) _ => "String"
  | .scalar (.number _) _ => "Number"
  | .scalar (.bool _) _ => "Bool"
  | .sequence (.list _) _ _ => "List"
  | .sequence (.set _) _ _ => "Set"
  | .sequence .tuple _ _ => "Tuple"
  | .mapping (.map _) _ _ => "Map"
  | .mapping .object _ _ => "Object"

mutual

def describe (v : Value) : String :=
  let content := match v with
    | .null t _ => t.text
    | .unknown t notNull _ => if notNull then t.text ++ ", not null" else t.text
    | .scalar (.string s) _ => quoted s
    | .scalar (.number n) _ => n.text
    | .scalar (.bool b) _ => toString b
    | .sequence _ es _ => bracketed (describeAll es)
    | .mapping _ es _ => braced (describeEntries es)
  let marked := if v.isMarked then " marked(" ++ v.marks.text ++ ")" else ""
  v.kindName ++ "(" ++ content ++ ")" ++ marked

def describeAll : List Value → List String
  | [] => []
  | v :: vs => v.describe :: describeAll vs

def describeEntries : List (String × Value) → List String
  | [] => []
  | (k, v) :: rest => (quoted k ++ ": " ++ v.describe) :: describeEntries rest

end

end MarkedValues.Value
