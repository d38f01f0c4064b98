import MarkedValues.Standard.Arguments
import MarkedValues.Text.Search
import MarkedValues.Unicode.CaseMap

/-!
Functions on strings. Lengths and offsets count characters.
-/
namespace MarkedValues.Standard

def stringFunction (name : String) (op : List Char → List Char) : Function where
  name := name
  params := [{ name := "str", ty := .string }]
  rule := .fixed .string
  notNull := true
  body := fun _ args _ => do .ok (.string (String.ofList (op (← textAt args 0).toList)))

def upper : Function := stringFunction "upper" Unicode.upper
def lower : Function := stringFunction "lower" Unicode.lower

def trimspace : Function := stringFunction "trimspace" (Text.trim Unicode.isWhite)

def chomp : Function := stringFunction "chomp" (Text.trimEnd fun c => c == '\r' || c == '\n')

def strrev : Function := stringFunction "strrev" List.reverse

/-- Characters at the start of a word in upper case; a word goes on while there are letters, digits
    and underscores. -/
def titleFrom : (wordStart : Bool) → List Char → List Char
  | _, [] => []
  | wordStart, c :: cs =>
    (if wordStart then Unicode.upperOf c else [c]) ++
      titleFrom (!(Unicode.isAlphanumeric c || c == '_')) cs

def title : Function := stringFunction "title" (titleFrom true)

def stringPair (name second : String) (ret : Ty) (op : List Char → List Char → Value) :
    Function where
  name := name
  params := [{ name := "str", ty := .string }, { name := second, ty := .string }]
  rule := .fixed ret
  notNull := true
  body := fun _ args _ => do .ok (op (← textAt args 0).toList (← textAt args 1).toList)

def stringOf (cs : List Char) : Value := .string (String.ofList cs)

def trim : Function :=
  stringPair "trim" "cutset" .string fun s cutset => stringOf (Text.trim cutset.contains s)

def trimprefix : Function :=
  stringPair "trimprefix" "prefix" .string fun s start => stringOf ((Text.dropStart? start s).getD s)

def trimsuffix : Function :=
  stringPair "trimsuffix" "suffix" .string fun s stop => stringOf ((Text.dropEnd? stop s).getD s)

def startswith : Function :=
  stringPair "startswith" "prefix" .bool fun s start => .bool (start.isPrefixOf s)

def endswith : Function :=
  stringPair "endswith" "suffix" .bool fun s stop => .bool (stop.isSuffixOf s)

def strcontains : Function :=
  stringPair "strcontains" "substr" .bool fun s part => .bool (Text.occurs part s)

inductive Joined where
  | pieces (parts : List String)
  | unknown
  | nullElement (place : Nat)

def joinable (place : Nat) : List Value → Joined
  | [] => .pieces []
  | v :: vs =>
    if v.isUnknown then .unknown
    else match v.string? with
    | none => .nullElement place
    | some s =>
      match joinable (place + 1) vs with
      | .pieces parts => .pieces (s :: parts)
      | other => other

/-- All strings of the lists, or nothing when one is unknown. -/
def joinLists : (i : Nat) → List Value → Outcome (Option (List String))
  | _, [] => .ok (some [])
  | i, list :: rest =>
    match joinable 0 list.elements with
    | .unknown => .ok none
    | .nullElement place => blame i ("element " ++ toString place ++ " is null")
    | .pieces parts => do .ok ((← joinLists (i + 1) rest).map (parts ++ ·))

def joinBody : Body := fun _ args _ => do
  let separator ← textAt args 0
  if args.length < 2 then .error (.ofMessage "at least one list is required")
  else match ← joinLists 1 (args.drop 1) with
  | none => .ok (.unknownOf .string)
  | some parts => .ok (stringOf (Text.join separator.toList (parts.map String.toList)))

/-- The elements of one or more lists with a separator between them. -/
def join : Function where
  name := "join"
  params := [{ name := "separator", ty := .string }]
  varParam := some { name := "lists", ty := .list .string }
  rule := .fixed .string
  notNull := true
  body := joinBody

def split : Function where
  name := "split"
  params := [{ name := "separator", ty := .string }, { name := "str", ty := .string }]
  rule := .fixed (.list .string)
  notNull := true
  body := fun _ args _ => do
    let pieces := Text.split (← textAt args 0).toList (← textAt args 1).toList
    .ok (.stringList (pieces.map String.ofList))

/-- Where an offset lies in so many characters; a negative one counts from the end. -/
def startOf (total : Nat) (offset : Int) : Nat :=
  if offset < 0 then total - offset.natAbs else offset.toNat

/-- So many characters from an offset on, all of them for a negative length. -/
def substring (s : List Char) (offset length : Int) : List Char :=
  let rest := s.drop (startOf s.length offset)
  if length < 0 then rest else rest.take length.toNat

def substr : Function where
  name := "substr"
  params := [{ name := "str", ty := .string }, { name := "offset", ty := .number },
    { name := "length", ty := .number }]
  rule := .fixed .string
  notNull := true
  body := fun _ args _ => do
    let s ← textAt args 0
    .ok (stringOf (substring s.toList (← wholeAt args 1) (← wholeAt args 2)))

/-- Each line but the first moved in by a number of blanks. -/
def indent : Function where
  name := "indent"
  params := [{ name := "spaces", ty := .number }, { name := "str", ty := .string }]
  rule := .fixed .string
  notNull := true
  body := fun _ args _ => do
    let spaces ← wholeAt args 0
    let pad := '\n' :: List.replicate spaces.toNat ' '
    .ok (stringOf (Text.replace ['\n'] pad (← textAt args 1).toList))

end MarkedValues.Standard
