import MarkedValues.Standard.Table

/-!
What a table holds: under each name the last function of that name that was put in.
-/
namespace MarkedValues

variable {engine : Regex.Engine}

namespace FunctionTable

theorem get?_insert (t : FunctionTable) (g : Function) (name : String) :
    (t.insert g).get? name = if name = g.name then some g else t.get? name :=
  Dict.lookup_insert g.name name g t.functions

theorem get?_foldl_insert (fs : List Function) (t : FunctionTable) (name : String) :
    (fs.foldl insert t).get? name =
      (fs.reverse.find? fun f => name == f.name).or (t.get? name) := by
  induction fs generalizing t with
  | nil => rfl
  | cons g fs ih =>
    rw [List.foldl_cons, ih, get?_insert, List.reverse_cons, List.find?_append, Option.or_assoc]
    by_cases h : name = g.name
    · simp [h]
    · simp [h]

theorem get?_ofList (fs : List Function) (name : String) :
    (ofList fs).get? name = fs.reverse.find? fun f => name == f.name :=
  (get?_foldl_insert fs empty name).trans (Option.or_none ..)

theorem mem_of_get?_ofList {fs : List Function} {name : String} {f : Function}
    (h : (ofList fs).get? name = some f) : f ∈ fs ∧ f.name = name := by
  rw [get?_ofList] at h
  have named : name = f.name := by simpa using List.find?_some h
  exact ⟨List.mem_reverse.1 (List.mem_of_find?_eq_some h), named.symm⟩

/-- Calling by name is calling the last function of that name. -/
theorem call_ofList {fs : List Function} {name : String} {f : Function}
    (found : fs.reverse.find? (fun g => name == g.name) = some f) (ctx : Context)
    (args : List Value) : (ofList fs).call ctx name args = f.call ctx args := by
  rw [call, get?_ofList, found]

end FunctionTable

section

variable {name : String} (f : Function)
    (found : (Standard.functions engine).reverse.find? (fun g => name == g.name) = some f)

include found

theorem standardTable_get? : (Standard.table engine).get? name = some f :=
  (FunctionTable.get?_ofList _ _).trans found

theorem standardTable_call (ctx : Context) (args : List Value) :
    (Standard.table engine).call ctx name args = f.call ctx args :=
  FunctionTable.call_ofList found ctx args

end

end MarkedValues
