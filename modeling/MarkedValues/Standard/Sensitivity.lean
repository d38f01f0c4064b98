import MarkedValues.Standard.Arguments

/-!
The functions that change or show marks. They take a value in any state and leave all else as it is.
-/
namespace MarkedValues.Standard

def anyValue : Param := { name := "value", ty := .dynamic, allow := .all }

def sensitive : Function where
  name := "sensitive"
  params := [anyValue]
  rule := .resolved typeOfFirst
  body := fun _ args _ => .ok ((argument args 0).withMark sensitiveMark)
  description := "Marks a value as sensitive."

def nonsensitive : Function where
  name := "nonsensitive"
  params := [anyValue]
  rule := .resolved typeOfFirst
  body := fun _ args _ => .ok ((argument args 0).withoutMark sensitiveMark)
  description := "Removes the sensitive mark from a value."

def issensitive : Function where
  name := "issensitive"
  params := [anyValue]
  rule := .fixed .bool
  body := fun _ args _ => .ok (.bool ((argument args 0).hasMark sensitiveMark))
  description := "Reports whether a value is marked sensitive."

end MarkedValues.Standard
