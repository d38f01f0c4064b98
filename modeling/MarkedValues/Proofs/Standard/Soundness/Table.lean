import MarkedValues.Proofs.Call.Table
import MarkedValues.Proofs.Standard.Soundness.Collections
import MarkedValues.Standard.Table

/-!
The standard functions keep their own contracts: whatever a call by name is handed, it does not fail
on account of the function.
-/
namespace MarkedValues

variable {engine : Regex.Engine}

namespace Standard

theorem sound : ∀ f ∈ functions engine, f.Sound := by
  simp only [functions, List.forall_mem_cons]
  exact ⟨
    numeric_sound _ _, boolList_sound _ _ _, boolList_sound _ _ _, numeric_sound _ _,
    stringFunction_sound _ _, chunklist_sound, cidrcontains_sound, cidrhost_sound,
    cidrnetmask_sound, cidrsubnet_sound, cidrsubnets_sound, coalesce_sound, coalescelist_sound,
    compact_sound, setFunction_sound _ _ _, concat_sound, contains_sound, distinct_sound,
    element_sound, stringPair_sound _ _ (fun _ _ => rfl) (fun _ _ => rfl), env_sound,
    flatten_sound, numeric_sound _ _, indent_sound, index_sound, issensitive_sound, join_sound,
    keys_sound, length_sound, numericPair_sound _ _ _, lookup_sound, stringFunction_sound _ _,
    matchkeys_sound, picking_sound _ _, merge_sound, picking_sound _ _, nonsensitive_sound,
    parseint_sound, numericPair_sound _ _ _, range_sound, regex_sound, regex_replace_sound,
    regexall_sound, replace_sound, reverse_sound, sensitive_sound, setFunction_sound _ _ _,
    setsubtract_sound, setFunction_sound _ _ _, setFunction_sound _ _ _, numeric_sound _ _,
    slice_sound, sort_sound, split_sound,
    stringPair_sound _ _ (fun _ _ => rfl) (fun _ _ => rfl),
    stringPair_sound _ _ (fun _ _ => rfl) (fun _ _ => rfl), stringFunction_sound _ _,
    substr_sound, sum_sound, stringFunction_sound _ _, cast_sound _ .bool, cast_sound _ .list,
    cast_sound _ .map, cast_sound _ .number, cast_sound _ .set, cast_sound _ .string,
    transpose_sound, stringPair_sound _ _ (fun _ _ => rfl) (fun _ _ => rfl),
    stringPair_sound _ _ (fun _ _ => rfl) (fun _ _ => rfl), stringFunction_sound _ _,
    stringPair_sound _ _ (fun _ _ => rfl) (fun _ _ => rfl), stringFunction_sound _ _,
    values_sound, zipmap_sound, fun _ h => nomatch h⟩

end Standard

/-- On well-formed arguments no call of a standard function fails on account of the function. Every
    argument has a parameter; a body that is run finds its arguments in the state that it reads them
    in, its result is null only where that is allowed, and converts to the type of the rule. -/
theorem standardTable_never_internal (ctx : Context) (name : String) (args : List Value)
    (built : ∀ a ∈ args, a.WellFormed) :
    (∀ e, (Standard.table engine).call ctx name args = .error e → e.isInternal = false) ∧
    ∀ f, (Standard.table engine).get? name = some f →
      (f.arityFault? args.length = none → ∀ i < args.length, ∃ p, f.paramFor i = some p) ∧
      ∀ seen ret marks, f.plan args = .ok (.run seen ret marks) →
        (∀ e, f.body ctx seen ret = .error e → e.isInternal = false) ∧
        ∀ r, f.body ctx seen ret = .ok r →
          (f.notNull = true → r.isNull = false) ∧ ∃ w, Value.convert r ret = .ok w := by
  have known : ∀ f, (Standard.table engine).get? name = some f → f.Sound := by
    intro f found
    exact Standard.sound f (FunctionTable.mem_of_get?_ofList found).1
  refine ⟨fun e h => ?_, fun f found => ⟨fun arity i hi => ?_, fun seen ret marks hplan => ?_⟩⟩
  · unfold FunctionTable.call at h
    cases found : (Standard.table engine).get? name with
    | none =>
      rw [found] at h
      cases h
      rfl
    | some f =>
      rw [found] at h
      have ends := (known f found).ends_call ctx built
      simp only at h
      rwa [h] at ends
  · exact Function.exists_paramFor arity hi
  · have planned := Function.ends_plan (known f found) built
    rw [hplan] at planned
    obtain ⟨runnable, resolved⟩ := planned seen ret marks rfl
    have runs := (known f found).runs ctx seen ret runnable resolved
    refine ⟨fun e h => ?_, fun r h => ?_⟩
    · rwa [h] at runs
    · rwa [h] at runs

def openRows : List Value :=
  [.list (.list .dynamic) [.list .number [.int 1], .list .string [.string "a"]], .int 3]

theorem element_of_openRows_never_internal :
    (∀ a ∈ openRows, a.WellFormed) ∧
      (∀ e, standardTable.call {} "element" openRows = .error e → e.isInternal = false) ∧
      (∃ v, standardTable.call {} "element" openRows = .ok v ∧ v.ty = .list .string) ∧
      ∀ i < openRows.length, ∃ p, Standard.element.paramFor i = some p := by
  have built : ∀ a ∈ openRows, a.WellFormed := by
    have one : (Value.list .number [.int 1]).WellFormed := by
      refine .list trivial (fun v hv => ?_) fun v hv => ?_ <;> cases List.mem_singleton.1 hv
      · rfl
      · exact .scalar
    have letter : (Value.list .string [.string "a"]).WellFormed := by
      refine .list trivial (fun v hv => ?_) fun v hv => ?_ <;> cases List.mem_singleton.1 hv
      · rfl
      · exact .scalar
    have rows : ∀ v ∈ [Value.list .number [.int 1], Value.list .string [.string "a"]],
        Ty.Matches v.ty (.list .dynamic) ∧ v.WellFormed := by
      intro v hv
      rcases List.mem_cons.1 hv with rfl | hv
      · exact ⟨⟨_, rfl, trivial⟩, one⟩
      · cases List.mem_singleton.1 hv
        exact ⟨⟨_, rfl, trivial⟩, letter⟩
    intro a ha
    rcases List.mem_cons.1 ha with rfl | ha
    · exact .list trivial (fun v hv => (rows v hv).1) fun v hv => (rows v hv).2
    · cases List.mem_singleton.1 ha
      exact .scalar
  have never := @standardTable_never_internal Regex.automaton {} "element" openRows built
  have found : standardTable.get? "element" = some Standard.element := standardTable_get? _ rfl
  have type : (standardTable.call {} "element" openRows).toOption.map Value.ty =
      some (.list .string) := by
    decide +kernel
  refine ⟨built, never.1, ?_, (never.2 _ found).1 rfl⟩
  cases hv : standardTable.call {} "element" openRows with
  | error e =>
    rw [hv] at type
    cases type
  | ok v =>
    rw [hv] at type
    exact ⟨v, rfl, Option.some.inj type⟩

end MarkedValues
