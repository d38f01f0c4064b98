import MarkedValues.Regex.Engine
import MarkedValues.Standard.Strings

/-!
Functions with regular expressions. The groups of the pattern shape a match: without groups it is
the text, unnamed groups make a list, named groups an object; the two kinds do not mix.
-/
namespace MarkedValues.Standard

open Regex (Engine Groups)

def groupValue (m : Groups) (group : Nat) : Value :=
  match m group with
  | some cs => stringOf cs
  | none => .nullOf .string

section

variable (engine : Engine)

def matcherAt (i : Nat) (pattern : String) : Outcome engine.Matcher :=
  match engine.ofText? pattern with
  | some r => .ok r
  | none => blame i "invalid regular expression pattern"

def matchType (r : engine.Matcher) : Outcome Ty :=
  let names := engine.groupNames r
  if names.isEmpty then .ok .string
  else if names.all Option.isNone then .ok (.list .string)
  else if names.all Option.isSome then
    .ok (.objectOf ((names.filterMap id).map fun n => (n, .string)))
  else blame 0 ("invalid regular expression pattern: cannot use both named and unnamed " ++
    "capture groups")

def matchValue (r : engine.Matcher) (m : Groups) (t : Ty) : Value :=
  let groups := numbered 1 (engine.groupNames r)
  match t with
  | .list _ => .list .string (groups.map fun (i, _) => groupValue m i)
  | .object _ =>
    .object (groups.filterMap fun (i, name) => name.map fun n => (n, groupValue m i))
  | _ => groupValue m 0

/-- The type of a match, open while the pattern is unknown. -/
def regexType : Resolver := fun args =>
  match (argument args 0).string? with
  | some pattern => matcherAt engine 0 pattern >>= matchType engine
  | none => .ok .dynamic

def regexBody : Body := fun _ args ret => do
  let r ← matcherAt engine 0 (← textAt args 0)
  let text := (← textAt args 1).toList
  match engine.find r text with
  | some m => .ok (matchValue engine r m ret)
  | none => blame 1 "pattern did not match any part of the given string"

def regex : Function where
  name := "regex"
  params := [{ name := "pattern", ty := .string }, { name := "string", ty := .string }]
  rule := .resolved (regexType engine)
  notNull := true
  body := regexBody engine

def regexallBody : Body := fun _ args ret => do
  let r ← matcherAt engine 0 (← textAt args 0)
  let text := (← textAt args 1).toList
  let elem := ret.elementType?.getD .string
  .ok (.list elem ((engine.findAll r text).map fun m => matchValue engine r m elem))

def regexall : Function where
  name := "regexall"
  params := [{ name := "pattern", ty := .string }, { name := "string", ty := .string }]
  rule := .resolved fun args => do .ok (.list (← regexType engine args))
  notNull := true
  body := regexallBody engine

def regex_replace : Function where
  name := "regex_replace"
  params := [{ name := "str", ty := .string }, { name := "pattern", ty := .string },
    { name := "replace", ty := .string }]
  rule := .fixed .string
  notNull := true
  body := fun _ args _ => do
    let r ← matcherAt engine 1 (← textAt args 1)
    .ok (stringOf (engine.replaceAll r (← textAt args 0).toList (← textAt args 2).toList))

def slashed? (s : List Char) : Option (List Char) := do
  Text.dropEnd? ['/'] (← Text.dropStart? ['/'] s)

def replaceBody : Body := fun _ args _ => do
  let s ← textAt args 0
  let old ← textAt args 1
  let new ← textAt args 2
  match slashed? old.toList with
  | some pattern => do
    let r ← matcherAt engine 1 (String.ofList pattern)
    .ok (stringOf (engine.replaceAll r s.toList new.toList))
  | none => .ok (stringOf (Text.replace old.toList new.toList s.toList))

/-- The text with each occurrence of another replaced; between slashes that is a pattern. -/
def replace : Function where
  name := "replace"
  params := [{ name := "str", ty := .string }, { name := "substr", ty := .string },
    { name := "replace", ty := .string }]
  rule := .fixed .string
  notNull := true
  body := replaceBody engine

end

end MarkedValues.Standard
