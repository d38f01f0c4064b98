import MarkedValues.Value.Convert

/-!
Why a call fails, and on account of which argument.
-/
namespace MarkedValues

inductive CallFault where
  /-- An argument of the wrong type or outside the function's domain. -/
  | argument (message : String)
  /-- The number of arguments is wrong; `expected` is phrased for display. -/
  | arity (name expected : String) (got : Nat)
  /-- Arguments whose types have no common type. -/
  | typeUnification (message : String)
  /-- Arithmetic that is defined but exceptional. -/
  | numeric (message : String)
  /-- An address of one family where a prefix asks for the other. -/
  | familyMismatch (network address : String)
  | undefinedFunction (name : String)
  /-- A function that broke its own contract. -/
  | internal (message : String)
  deriving DecidableEq

namespace CallFault

def message : CallFault → String
  | .argument m | .typeUnification m | .numeric m => m
  | .arity name expected got => name ++ " expects " ++ expected ++ ", got " ++ toString got
  | .familyMismatch network address =>
    "address family mismatch: " ++ network ++ " vs. " ++ address
  | .undefinedFunction name => "call to unknown function " ++ Text.quoted name
  | .internal m => "internal error: " ++ m

end CallFault

/-- A failed call: the cause, the place of the argument at fault and its parameter's name. -/
structure CallError where
  fault : CallFault
  argument? : Option Nat
  parameter? : Option String
  deriving DecidableEq

abbrev Outcome (α : Type) := Except CallError α

namespace CallError

def ofFault (fault : CallFault) : CallError := ⟨fault, none, none⟩

/-- A fault of an argument, not yet of any certain one. -/
def ofMessage (message : String) : CallError := .ofFault (.argument message)

def mustNotBeNull : CallError := .ofMessage "argument must not be null"

def wrongKind (i : Nat) (expected : String) (got : Ty) : CallError :=
  ⟨.argument (expected ++ " required, but have " ++ got.text), some i, none⟩

def ofConversion (e : ConversionError) : CallError := .ofMessage e.message

/-- Blames argument `i`, unless one is blamed already. -/
def atArgument (e : CallError) (i : Nat) : CallError :=
  { e with argument? := e.argument?.or (some i) }

/-- Names the parameter, unless one is named already. -/
def atParameter (e : CallError) (name : String) : CallError :=
  { e with parameter? := e.parameter?.or (some name) }

def message (e : CallError) : String := e.fault.message

def display (e : CallError) : String :=
  match e.parameter? with
  | some name => "invalid value for " ++ Text.quoted name ++ " parameter: " ++ e.message
  | none => e.message

end CallError

def blame {α : Type} (i : Nat) (message : String) : Outcome α :=
  .error ⟨.argument message, some i, none⟩

end MarkedValues
