import MarkedValues.Proofs.Call.Table
import MarkedValues.Proofs.Standard.Casts
import MarkedValues.Proofs.Standard.Environment
import MarkedValues.Proofs.Standard.Fresh
import MarkedValues.Proofs.Standard.Passing
import MarkedValues.Standard.Table

/-!
Marks and the standard table. Most functions take no marks and make none, so the call carries those
of the arguments around them. The conversions by name and the reading of variables do it themselves.
-/
namespace MarkedValues

variable {engine : Regex.Engine}

namespace Standard

open Outcomes

def refusesMarks (f : Function) : Bool := f.everyParam fun p => !p.allow.marked

theorem takesNoMarks_of_refusesMarks {f : Function} (h : refusesMarks f = true) :
    f.TakesNoMarks := by
  intro i p hp
  simpa using Function.check_of_everyParam h hp

/-- The functions that are there to change or to show marks. -/
def markNames : List String := ["sensitive", "nonsensitive", "issensitive"]

/-- How a function deals with marked arguments. -/
inductive MarkUse : Function → Prop
  | strict {f : Function} : refusesMarks f = true → f.BodyUnmarked → MarkUse f
  | casts {name : String} {target : Ty} : CastTarget target → MarkUse (cast name target)
  | reads : MarkUse env
  | changes {f : Function} : f.name ∈ markNames → MarkUse f

theorem markUse : ∀ f ∈ functions engine, MarkUse f := by
  simp only [functions, List.forall_mem_cons]
  exact ⟨
    .strict rfl (numeric_unmarked _ _), .strict rfl (boolList_unmarked _ _ _),
    .strict rfl (boolList_unmarked _ _ _), .strict rfl (numeric_unmarked _ _),
    .strict rfl (stringFunction_unmarked _ _), .strict rfl chunklist_unmarked,
    .strict rfl cidrcontains_unmarked, .strict rfl cidrhost_unmarked,
    .strict rfl cidrnetmask_unmarked, .strict rfl cidrsubnet_unmarked,
    .strict rfl cidrsubnets_unmarked, .strict rfl coalesce_unmarked,
    .strict rfl coalescelist_unmarked, .strict rfl compact_unmarked,
    .strict rfl (setFunction_unmarked _ subtract_selects _), .strict rfl concat_unmarked,
    .strict rfl contains_unmarked, .strict rfl distinct_unmarked, .strict rfl element_unmarked,
    .strict rfl (stringPair_unmarked _ _ fun _ _ => rfl), .reads, .strict rfl flatten_unmarked,
    .strict rfl (numeric_unmarked _ _), .strict rfl indent_unmarked, .strict rfl index_unmarked,
    .changes (by decide), .strict rfl join_unmarked, .strict rfl keys_unmarked,
    .strict rfl length_unmarked, .strict rfl (numericPair_unmarked _ _ _),
    .strict rfl lookup_unmarked, .strict rfl (stringFunction_unmarked _ _),
    .strict rfl matchkeys_unmarked, .strict rfl (picking_unmarked _ _), .strict rfl merge_unmarked,
    .strict rfl (picking_unmarked _ _), .changes (by decide), .strict rfl parseint_unmarked,
    .strict rfl (numericPair_unmarked _ _ _), .strict rfl range_unmarked,
    .strict rfl regex_unmarked, .strict rfl regex_replace_unmarked, .strict rfl regexall_unmarked,
    .strict rfl replace_unmarked, .strict rfl reverse_unmarked, .changes (by decide),
    .strict rfl (setFunction_unmarked _ intersection_selects _), .strict rfl setsubtract_unmarked,
    .strict rfl (setFunction_unmarked _ symmetricDifference_selects _),
    .strict rfl (setFunction_unmarked _ union_selects _), .strict rfl (numeric_unmarked _ _),
    .strict rfl slice_unmarked, .strict rfl sort_unmarked, .strict rfl split_unmarked,
    .strict rfl (stringPair_unmarked _ _ fun _ _ => rfl),
    .strict rfl (stringPair_unmarked _ _ fun _ _ => rfl), .strict rfl (stringFunction_unmarked _ _),
    .strict rfl substr_unmarked, .strict rfl sum_unmarked,
    .strict rfl (stringFunction_unmarked _ _), .casts .bool, .casts .list, .casts .map,
    .casts .number, .casts .set, .casts .string, .strict rfl transpose_unmarked,
    .strict rfl (stringPair_unmarked _ _ fun _ _ => rfl),
    .strict rfl (stringPair_unmarked _ _ fun _ _ => rfl), .strict rfl (stringFunction_unmarked _ _),
    .strict rfl (stringPair_unmarked _ _ fun _ _ => rfl), .strict rfl (stringFunction_unmarked _ _),
    .strict rfl values_unmarked, .strict rfl zipmap_unmarked,
    fun _ h => nomatch h⟩

end Standard

open Standard

/-- Marks neither decide how a call by name ends nor get lost in it. -/
def FunctionTable.CarriesMarks (t : FunctionTable) (ctx : Context) (name : String)
    (args : List Value) : Prop :=
  (∃ e, t.call ctx name args = .error e ∧ t.call ctx name (args.map Value.erase) = .error e) ∨
  ∃ v w, t.call ctx name args = .ok v ∧ t.call ctx name (args.map Value.erase) = .ok w ∧
    v.erase = w ∧ v.allMarks = Value.marksOfAll args

theorem standardTable_env : (table engine).get? "env" = some env := standardTable_get? env rfl

/-- For every standard function but those that are there to change or show marks, a call on marked
    arguments and the call on the erased ones fail alike or give the same content, and the marks of
    the result are those of the arguments; only `env` waiting for the type of a marked name drops
    them. Any function that takes no marks gives what it gives for the erased arguments, with all
    the marks on top. -/
theorem standardTable_carriesMarks_iff (ctx : Context) (name : String) (args : List Value)
    (wf : ∀ a ∈ args, a.WellFormed) (plain : name ∉ markNames) :
    ((table engine).CarriesMarks ctx name args ↔ ¬ (name = "env" ∧ MarkedOpenName args)) ∧
    ∀ f : Function, f.TakesNoMarks → ∀ (c : Context) (as : List Value),
      f.call c as = (f.call c (as.map Value.erase)).map (·.withMarks (Value.marksOfAll as)) := by
  refine ⟨?_, fun f strict c as => f.call_of_takesNoMarks strict c as⟩
  by_cases reads : name = "env"
  · subst reads
    have lifted : (table engine).CarriesMarks ctx "env" args ↔ env.CarriesMarks ctx args := by
      simp only [FunctionTable.CarriesMarks, FunctionTable.call, standardTable_env]
      rfl
    rw [lifted, carriesMarks_env_iff ctx wf]
    simp
  · refine iff_of_true ?_ fun h => reads h.1
    unfold FunctionTable.CarriesMarks FunctionTable.call
    cases found : (table engine).get? name with
    | none => exact .inl ⟨_, rfl, rfl⟩
    | some f =>
      obtain ⟨mem, rfl⟩ := FunctionTable.mem_of_get?_ofList found
      cases markUse f mem with
      | strict refuses clean =>
        exact Function.carriesMarks_of_takesNoMarks (takesNoMarks_of_refusesMarks refuses) clean
          ctx args
      | casts target => exact carriesMarks_cast target _ ctx wf
      | reads => exact absurd rfl reads
      | changes changing => exact absurd changing plain

def markedPair : Value := .tuple [(Value.string "a").withMark sensitiveMark, .string "b"]

def markedOpenName : Value := Value.dynamic.withMark sensitiveMark

theorem tolist_carries_and_env_drops :
    (∀ a ∈ [markedPair], a.WellFormed) ∧ "tolist" ∉ markNames ∧
      standardTable.CarriesMarks {} "tolist" [markedPair] ∧
    (∀ a ∈ [markedOpenName], a.WellFormed) ∧ "env" ∉ markNames ∧
      ¬ standardTable.CarriesMarks {} "env" [markedOpenName] := by
  have pair : ∀ a ∈ [markedPair], a.WellFormed := by
    simp only [List.mem_singleton, forall_eq]
    refine .tuple fun v hv => ?_
    rcases List.mem_cons.1 hv with rfl | hv
    · exact .scalar
    · cases List.mem_singleton.1 hv
      exact .scalar
  have name : ∀ a ∈ [markedOpenName], a.WellFormed := by
    simp only [List.mem_singleton, forall_eq]
    exact .unknown trivial
  have other : "tolist" ∉ markNames := by decide
  have reads : "env" ∉ markNames := by decide
  have carried :=
    (@standardTable_carriesMarks_iff Regex.automaton {} "tolist" [markedPair] pair other).1
  have dropped :=
    (@standardTable_carriesMarks_iff Regex.automaton {} "env" [markedOpenName] name reads).1
  refine ⟨pair, other, carried.2 (by simp), name, reads, fun carries => ?_⟩
  exact dropped.1 carries ⟨rfl, markedOpenName, rfl, rfl, rfl, by decide⟩

end MarkedValues
