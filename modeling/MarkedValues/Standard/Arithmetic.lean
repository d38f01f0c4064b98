import MarkedValues.Number.Wide
import MarkedValues.Standard.Arguments

/-!
Functions on numbers.
-/
namespace MarkedValues.Standard

def numeric (name : String) (op : Number → Number) : Function where
  name := name
  params := [{ name := "num", ty := .number }]
  rule := .fixed .number
  notNull := true
  body := fun _ args _ => do .ok (.number (op (← numberAt args 0)))

def abs : Function := numeric "abs" Number.abs
def ceil : Function := numeric "ceil" Number.ceil
def floor : Function := numeric "floor" Number.floor

def signum : Function := numeric "signum" fun n => .ofInt n.signum

def numericPair (name second : String) (op : Number → Number → Number) : Function where
  name := name
  params := [{ name := "num", ty := .number }, { name := second, ty := .number }]
  rule := .fixed .number
  notNull := true
  body := fun _ args _ => do .ok (.number (op (← numberAt args 0) (← numberAt args 1)))

def log : Function := numericPair "log" "base" Number.log
def pow : Function := numericPair "pow" "power" Number.pow

def numbersOf (args : List Value) : Outcome (List Number) :=
  (List.range args.length).mapM (numberAt args)

def picking (name : String) (pick : Number → Number → Number) : Function where
  name := name
  varParam := some { name := "numbers", ty := .number }
  rule := .fixed .number
  notNull := true
  body := fun _ args _ => do
    match ← numbersOf args with
    | [] => .error (.ofMessage "must pass at least one number")
    | n :: ns => .ok (.number (ns.foldl pick n))

def min : Function := picking "min" Number.min

def max : Function := picking "max" Number.max

/-- The elements as numbers; null and what does not convert are none. -/
def summands (vs : List Value) : Option (List Number) :=
  allSome (vs.map fun v =>
    if v.isNull then none else (Value.convert v .number).toOption.bind Value.number?)

/-- Infinite terms decide the sum; finite ones cannot cancel them. -/
def total (ns : List Number) : Outcome Number :=
  let positive := ns.any fun n => n.isInfinite && !n.isNegative
  let negative := ns.any fun n => n.isInfinite && n.isNegative
  match positive, negative with
  | true, true => .error (.ofFault (.numeric "can't compute sum of opposing infinities"))
  | true, false => .ok .infinity
  | false, true => .ok .negativeInfinity
  | false, false => .ok (.sum ns)

def sumBody : Body := fun _ args _ =>
  let list := argument args 0
  if !list.ty.canIterate then blame 0 "cannot sum noniterable"
  else if list.elementCount? = some 0 then blame 0 "cannot sum an empty list"
  else if !list.ty.isSequence then
    blame 0 ("argument must be list, set, or tuple. Received " ++ list.ty.text)
  else if !list.isWhollyKnown then .ok (.unknownOf .number)
  else match summands list.elements with
  | none => blame 0 "argument must be list, set, or tuple of number values"
  | some ns => do .ok (.number (← total ns))

def sum : Function where
  name := "sum"
  params := [{ name := "list", ty := .dynamic }]
  rule := .fixed .number
  notNull := true
  body := sumBody

/-- The value of an ASCII digit in a base up to 62. Letters are alike in both cases up to base 36;
    above it the lower case comes first. -/
def digitValue (c : Char) (base : Nat) : Option Nat :=
  let d :=
    if '0' ≤ c ∧ c ≤ '9' then some (c.toNat - '0'.toNat)
    else if 'a' ≤ c ∧ c ≤ 'z' then some (c.toNat - 'a'.toNat + 10)
    else if 'A' ≤ c ∧ c ≤ 'Z' then
      some (c.toNat - 'A'.toNat + if base ≤ 36 then 10 else 36)
    else none
  d.filter (· < base)

/-- Takes digits one by one and stops at the first that is none or that overflows. -/
def digitsValue (base : Nat) : (acc : Wide) → List Char → Option Wide
  | acc, [] => some acc
  | acc, c :: cs => do
    let d ← digitValue c base
    let shifted ← Wide.checkedMul acc (BitVec.ofNat 128 base)
    let next ← Wide.checkedAdd shifted (BitVec.ofNat 128 d)
    digitsValue base next cs

/-- An integer in a base: at most one sign, then one or more digits. -/
def integerOf? (text : List Char) (base : Nat) : Option Int :=
  let (negative, digits) := Number.takeSign text
  if digits.isEmpty then none
  else (digitsValue base 0 digits).map fun n => (if negative then -n else n).toInt

def parseintBody : Body := fun _ args _ =>
  match (argument args 0).string? with
  | none => blame 0 ("first argument must be a string, not " ++ (argument args 0).ty.text)
  | some text => do
    let base ← wholeAt args 1
    if base < 2 ∨ 62 < base then
      blame 1 "base must be a whole number between 2 and 62 inclusive"
    else match integerOf? text.toList base.toNat with
    | some n => .ok (.int n)
    | none =>
      blame 0 ("cannot parse " ++ Text.quoted text ++ " as a base " ++ toString base ++ " integer")

/-- Reads a string as an integer in a base from 2 to 62. -/
def parseint : Function where
  name := "parseint"
  params := [{ name := "number", ty := .dynamic }, { name := "base", ty := .number }]
  rule := .fixed .number
  notNull := true
  body := parseintBody

def rangeLimit : Nat := 1024

/-- The numbers from `i` by `step` until `limit` is reached; nothing when there
    are more than `room`. -/
def rangeFrom (limit step : Number) : (room : Nat) → (i : Number) → Option (List Number)
  | room, i =>
    let more := (Number.less .zero step && i.less limit) || (step.less .zero && limit.less i)
    match room with
    | 0 => if more then none else some []
    | room + 1 =>
      if more then (rangeFrom limit step room (i.add step)).map (i :: ·) else some []

/-- Start, limit and step. The step alone may be left out, then it leads to the limit. -/
def rangeBounds : List Number → Option (Number × Number × Number)
  | [limit] => some (.zero, limit, .ofInt 1)
  | [start, limit] =>
    some (start, limit, if start.less limit || start.same limit then .ofInt 1 else .ofInt (-1))
  | [start, limit, step] => some (start, limit, step)
  | _ => none

def rangeBody : Body := fun _ args _ => do
  match rangeBounds (← numbersOf args) with
  | none => .error (.ofMessage "must have one, two, or three arguments")
  | some (start, limit, step) =>
    if step.same .zero then blame 2 "step must not be zero"
    else if start.less limit && step.less .zero then
      blame 2 "step must be positive when start is less than limit"
    else if limit.less start && Number.less .zero step then
      blame 2 "step must be negative when start is greater than limit"
    else match rangeFrom limit step rangeLimit start with
    | some ns => .ok (.list .number (ns.map .number))
    | none => .error (.ofMessage ("more than 1024 values were generated; either decrease the " ++
        "difference between start and limit or use a smaller step"))

/-- The numbers from start up to but not including limit, by step. -/
def range : Function where
  name := "range"
  varParam := some { name := "params", ty := .number }
  rule := .fixed (.list .number)
  notNull := true
  body := rangeBody

end MarkedValues.Standard
