import MarkedValues.Standard.Arguments

/-!
Environment variables, read through the context of the call.
-/
namespace MarkedValues.Standard

def envBody : Body := fun ctx args _ =>
  let key := argument args 0
  match key.string? with
  | none => .ok ((Value.unknownOf .string).withMarks key.marks)
  | some name => .ok ((Value.string ((ctx.lookup name).getD "")).withMarks key.marks)

/-- The one parameter of `env`: unknown and marked names are handled by the body. -/
def keyParam : Param where
  name := "key"
  ty := .string
  allow := { unknown := true, marked := true }
  description := "Environment variable name"

def env : Function where
  name := "env"
  params := [keyParam]
  rule := .fixed .string
  notNull := true
  body := envBody
  description := "Read environment variable, return empty string if the variable is not set."

end MarkedValues.Standard
