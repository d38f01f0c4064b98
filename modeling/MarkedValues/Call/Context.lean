import MarkedValues.Dict

/-!
What a function may consult besides its arguments: environment variables, those set for this
evaluation before those inherited from the surrounding process.
-/
namespace MarkedValues

structure Context where
  overrides : Dict String := []
  inherited : Dict String := []

namespace Context

def withVariable (c : Context) (name value : String) : Context :=
  { c with overrides := c.overrides.insert name value }

/-- Drops all earlier overrides for these. -/
def withVariables (c : Context) (entries : List (String × String)) : Context :=
  { c with overrides := Dict.ofList entries }

def withoutInherited (c : Context) : Context := { c with inherited := [] }

def lookup (c : Context) (name : String) : Option String :=
  (c.overrides.lookup name).or (c.inherited.lookup name)

end Context

end MarkedValues
