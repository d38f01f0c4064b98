import MarkedValues.Call.Plan

/-!
Functions by name.
-/
namespace MarkedValues

structure FunctionTable where
  functions : Dict Function

namespace FunctionTable

def empty : FunctionTable := ⟨[]⟩

/-- Registers a function under its own name, in place of any other of that name. -/
def insert (t : FunctionTable) (f : Function) : FunctionTable := ⟨t.functions.insert f.name f⟩

def ofList (fs : List Function) : FunctionTable := fs.foldl insert empty

def without (t : FunctionTable) (name : String) : FunctionTable := ⟨t.functions.erase name⟩

def get? (t : FunctionTable) (name : String) : Option Function := t.functions.lookup name

def contains (t : FunctionTable) (name : String) : Bool := (t.get? name).isSome

def names (t : FunctionTable) : List String := t.functions.keys

def size (t : FunctionTable) : Nat := t.functions.length

def isEmpty (t : FunctionTable) : Bool := t.functions.isEmpty

def call (t : FunctionTable) (ctx : Context) (name : String) (args : List Value) : Outcome Value :=
  match t.get? name with
  | some f => f.call ctx args
  | none => .error (.ofFault (.undefinedFunction name))

end FunctionTable

end MarkedValues
