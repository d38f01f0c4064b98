import MarkedValues.Proofs.Call.Forgetting
import MarkedValues.Proofs.Standard.Arguments
import MarkedValues.Standard.Table

/-!
The type rules of the standard functions on arguments that are known less. Most look at types alone.
The others look into an argument where it is known, and settle for `dynamic` where it is not.
-/
namespace MarkedValues.Standard

open Outcomes
open Value (Forgets)

variable {engine : Regex.Engine}

/-- Where the rule finds a type, it finds one for arguments that are known less. -/
def Degrades (rule : Resolver) : Prop :=
  ∀ {seen seen' : List Value} {t : Ty}, List.Forall₂ Forgets seen seen' → rule seen = .ok t →
    ∃ t', rule seen' = .ok t'

section

variable {seen seen' : List Value} (types : seen'.map Value.ty = seen.map Value.ty)

include types

theorem getElem?_ty (i : Nat) : seen'[i]?.map Value.ty = seen[i]?.map Value.ty := by
  rw [← List.getElem?_map, ← List.getElem?_map, types]

theorem argument_ty (i : Nat) : (argument seen' i).ty = (argument seen i).ty := by
  rw [argument, argument, List.getD_eq_getElem?_getD, List.getD_eq_getElem?_getD,
    ← Option.getD_map Value.ty, ← Option.getD_map Value.ty, getElem?_ty types]

theorem length_of_types : seen'.length = seen.length := by
  simpa using congrArg List.length types

theorem isEmpty_of_types : seen'.isEmpty = seen.isEmpty :=
  Lists.isEmpty_congr (length_of_types types)

theorem all_ty_congr (p : Ty → Bool) : (seen'.all fun a => p a.ty) = seen.all fun a => p a.ty := by
  have here : ∀ args : List Value, (args.all fun a => p a.ty) = (args.map Value.ty).all p :=
    fun args => (List.all_map ..).symm
  rw [here, here, types]

theorem map_ty_congr {α : Type} (f : Ty → α) :
    (seen'.map fun a => f a.ty) = seen.map fun a => f a.ty := by
  have here : ∀ args : List Value, (args.map fun a => f a.ty) = (args.map Value.ty).map f :=
    fun args => (List.map_map ..).symm
  rw [here, here, types]

theorem all_types {p : Ty → Prop} (h : ∀ a ∈ seen, p a.ty) : ∀ a ∈ seen', p a.ty := by
  have all : ∀ t ∈ seen.map Value.ty, p t := List.forall_mem_map.2 h
  rw [← types] at all
  exact List.forall_mem_map.1 all

end

section

variable {seen seen' : List Value} (less : List.Forall₂ Forgets seen seen')

include less

theorem argument_forgets (i : Nat) : Forgets (argument seen i) (argument seen' i) := by
  induction less generalizing i with
  | nil => exact .kept
  | cons first _ ih =>
    cases i with
    | zero => exact first
    | succ i => exact ih i

theorem types_of_forgets : seen'.map Value.ty = seen.map Value.ty := by
  induction less with
  | nil => rfl
  | cons first _ ih => rw [List.map_cons, List.map_cons, first.ty, ih]

theorem getElem?_eq_of_known {i : Nat} (known : (argument seen' i).isUnknown = false) :
    seen'[i]? = seen[i]? := by
  apply Function.getElem?_of_known less
  intro w hw
  have here : argument seen' i = w := by
    rw [argument, List.getD_eq_getElem?_getD, hw]
    rfl
  rwa [here] at known

end

theorem requireSequence_congr {v w : Value} (h : w.ty = v.ty) (i : Nat) :
    requireSequence w i = requireSequence v i := by
  rw [requireSequence, requireSequence, h]

theorem requireMapping_congr {v w : Value} (h : w.ty = v.ty) (i : Nat) :
    requireMapping w i = requireMapping v i := by
  rw [requireMapping, requireMapping, h]

/-- The rule gives the same for arguments of the same types. -/
def ReadsTypes (rule : Resolver) : Prop :=
  ∀ {seen seen' : List Value}, seen'.map Value.ty = seen.map Value.ty → rule seen' = rule seen

theorem ReadsTypes.degrades {rule : Resolver} (reads : ReadsTypes rule) : Degrades rule := by
  intro seen seen' t less h
  exact ⟨t, (reads (types_of_forgets less)).trans h⟩

theorem typeOfFirst_readsTypes : ReadsTypes typeOfFirst :=
  fun types => congrArg Except.ok (argument_ty types 0)

theorem chunklistType_readsTypes : ReadsTypes fun args => .ok (.list (argument args 0).ty) :=
  fun types => congrArg (fun t => Except.ok (Ty.list t)) (argument_ty types 0)

theorem reverseType_readsTypes : ReadsTypes reverseType := by
  intro seen seen' types
  unfold reverseType
  rw [requireSequence_congr (argument_ty types 0), argument_ty types 0]

theorem keysType_readsTypes : ReadsTypes keysType := by
  intro seen seen' types
  unfold keysType
  rw [requireMapping_congr (argument_ty types 0), argument_ty types 0]

theorem valuesType_readsTypes : ReadsTypes valuesType := by
  intro seen seen' types
  unfold valuesType
  rw [requireMapping_congr (argument_ty types 0), argument_ty types 0]

theorem lengthType_readsTypes : ReadsTypes lengthType := by
  intro seen seen' types
  unfold lengthType
  rw [argument_ty types 0]

theorem matchkeysType_readsTypes :
    ReadsTypes fun args => keysAndSearchsetType args >>= fun _ => .ok (argument args 0).ty := by
  intro seen seen' types
  simp only [keysAndSearchsetType, argument_ty types 0, argument_ty types 1, argument_ty types 2]

theorem coalesceType_readsTypes : ReadsTypes coalesceType := by
  intro seen seen' types
  unfold coalesceType
  rw [types, isEmpty_of_types types]

theorem elementTypeAt_degrades : Degrades elementTypeAt := by
  intro seen seen' t less h
  have types := types_of_forgets less
  unfold elementTypeAt at h ⊢
  rw [requireSequence_congr (argument_ty types 0), argument_ty types 0]
  obtain ⟨_, hs, _⟩ := bind_eq_ok.1 h
  rw [hs]
  simp only [bind, Except.bind]
  split
  · split
    · split <;> exact ⟨_, rfl⟩
    · exact ⟨_, rfl⟩
  · exact ⟨_, rfl⟩

theorem wholeAt_congr {seen seen' : List Value} {i : Nat} (h : seen'[i]? = seen[i]?) :
    wholeAt seen' i = wholeAt seen i := by
  rw [wholeAt, wholeAt, numberAt, numberAt, h]

theorem sliceType_degrades : Degrades sliceType := by
  intro seen seen' t less h
  have types := types_of_forgets less
  unfold sliceType at h ⊢
  rw [requireSequence_congr (argument_ty types 0), argument_ty types 0]
  obtain ⟨_, hs, h⟩ := bind_eq_ok.1 h
  rw [hs]
  simp only [bind, Except.bind] at h ⊢
  split
  · next es shape =>
    rw [shape] at h
    by_cases unknown : ((argument seen' 1).isUnknown || (argument seen' 2).isUnknown) = true
    · rw [if_pos unknown]
      exact ⟨_, rfl⟩
    · rw [if_neg unknown]
      simp only [Bool.or_eq_true, not_or, Bool.not_eq_true] at unknown
      have start := getElem?_eq_of_known less unknown.1
      have stop := getElem?_eq_of_known less unknown.2
      have known : ¬ ((argument seen 1).isUnknown || (argument seen 2).isUnknown) = true := by
        rw [← argument_congr start, ← argument_congr stop, unknown.1, unknown.2]
        simp
      simp only [if_neg known] at h
      have bounds : sliceBounds seen' es.length = sliceBounds seen es.length := by
        rw [sliceBounds, sliceBounds, wholeAt_congr start, wholeAt_congr stop]
      rw [bounds]
      exact ⟨t, h⟩
  · exact ⟨_, rfl⟩

theorem zipmapType_degrades : Degrades zipmapType := by
  intro seen seen' t less h
  have types := types_of_forgets less
  unfold zipmapType at h ⊢
  rw [argument_ty types 1]
  cases shape : (argument seen 1).ty with
  | list e => exact ⟨_, rfl⟩
  | tuple es =>
    simp only
    split
    · split <;> exact ⟨_, rfl⟩
    · exact ⟨_, rfl⟩
  | _ =>
    rw [shape] at h
    cases h

theorem flattenType_degrades : Degrades flattenType := by
  intro seen seen' t less h
  have types := types_of_forgets less
  unfold flattenType at h ⊢
  simp only [argument_ty types 0] at h ⊢
  split at h
  · cases h
  · next shape =>
    rw [if_neg shape]
    split <;> exact ⟨_, rfl⟩

theorem lookupType_degrades : Degrades lookupType := by
  intro seen seen' t less h
  have types := types_of_forgets less
  unfold lookupType at h ⊢
  simp only [requireMapping_congr (argument_ty types 0), argument_ty types 0, getElem?_ty types 2,
    ← less.length_eq] at h ⊢
  split at h
  · cases h
  · next few =>
    rw [if_neg few]
    obtain ⟨_, hm, h⟩ := bind_eq_ok.1 h
    rw [hm]
    simp only [bind, Except.bind]
    split
    · next e shape =>
      rw [shape] at h
      exact ⟨t, h⟩
    · exact ⟨_, rfl⟩
    · exact ⟨_, rfl⟩

theorem lookupType_congr {seen seen' : List Value} (types : seen'.map Value.ty = seen.map Value.ty)
    (key : (argument seen' 1).string? = (argument seen 1).string?) :
    lookupType seen' = lookupType seen := by
  unfold lookupType
  rw [requireMapping_congr (argument_ty types 0), argument_ty types 0, getElem?_ty types 2, key,
    length_of_types types]

theorem regexType_degrades : Degrades (regexType engine) := by
  intro seen seen' t less h
  have first := argument_forgets less 0
  unfold regexType at h ⊢
  generalize argument seen' 0 = w at first ⊢
  generalize argument seen 0 = v at first h
  cases first with
  | kept => exact ⟨t, h⟩
  | unknown r m => exact ⟨.dynamic, rfl⟩

theorem regexallType_degrades :
    Degrades fun args => regexType engine args >>= fun t => .ok (.list t) := by
  intro seen seen' t less h
  obtain ⟨u, hu, _⟩ := bind_eq_ok.1 h
  obtain ⟨u', hu'⟩ := regexType_degrades less hu
  exact ⟨.list u', bind_eq_ok.2 ⟨u', hu', rfl⟩⟩

theorem eq_of_coalescelistType {args : List Value} {t : Ty} (h : coalescelistType args = .ok t) :
    t = (Ty.unify (args.map Value.ty)).getD .dynamic := by
  unfold coalescelistType at h
  split at h
  · cases h
  · simp only at h
    split at h
    · cases h
    · exact (Except.ok.inj h).symm

theorem coalescelistType_degrades : Degrades coalescelistType := by
  intro seen seen' t less h
  have types := types_of_forgets less
  unfold coalescelistType at h ⊢
  rw [isEmpty_of_types types]
  split at h
  · cases h
  · next nonempty =>
    rw [if_neg nonempty]
    simp only at h ⊢
    split at h
    · cases h
    · next fits =>
      have fit := all_types (p := fun t => (!(t.isDynamic || t.isList || t.isTuple)) = false) types
        (find?_numbered_eq_none.1 fits)
      rw [find?_numbered_eq_none.2 fit]
      exact ⟨_, rfl⟩

theorem concatType_degrades : Degrades concatType := by
  intro seen seen' t less h
  have types := types_of_forgets less
  unfold concatType at h ⊢
  rw [isEmpty_of_types types]
  split at h
  · cases h
  · next nonempty =>
    rw [if_neg nonempty]
    split at h
    · cases h
    · next fits =>
      have fit := all_types (p := fun t => (!(t.isList || t.isTuple)) = false) types
        (find?_numbered_eq_none.1 fits)
      rw [firstNoSequence, find?_numbered_eq_none.2 fit]
      simp only
      split
      · exact ⟨_, rfl⟩
      · split <;> exact ⟨_, rfl⟩

theorem mergeType_degrades : Degrades mergeType := by
  intro seen seen' t less h
  have types := types_of_forgets less
  unfold mergeType at h ⊢
  split at h
  · cases h
  · next fits =>
    have fit := all_types (p := fun t => (!(t.isDynamic || t.isMapping)) = false) types
      (find?_numbered_eq_none.1 fits)
    rw [firstNoMapping, find?_numbered_eq_none.2 fit]
    simp only
    split
    · exact ⟨_, rfl⟩
    · split <;> exact ⟨_, rfl⟩

def elementTypes (args : List Value) : List Ty :=
  args.filterMap fun v => if isEmptyLiteral v then none else some v.ty.elementType

theorem elementTypes_cons (v : Value) (args : List Value) :
    elementTypes (v :: args) =
      if isEmptyLiteral v then elementTypes args else v.ty.elementType :: elementTypes args := by
  by_cases h : isEmptyLiteral v = true
  · simp [elementTypes, h]
  · simp [elementTypes, h]

theorem map_snd_elementTypes (i : Nat) (args : List Value) :
    ((numbered i args).filterMap fun (i, v) =>
      if isEmptyLiteral v then none else some (i, v.ty.elementType)).map Prod.snd =
      elementTypes args := by
  induction args generalizing i with
  | nil => rfl
  | cons v args ih =>
    rw [elementTypes_cons, ← ih (i + 1)]
    by_cases h : isEmptyLiteral v = true
    · simp [numbered, h]
    · simp [numbered, h]

theorem setOperationType_eq_ok {args : List Value} {t : Ty} :
    setOperationType args = .ok t ↔ elementTypes args = [] ∧ t = .set .dynamic ∨
      ∃ e, Ty.unify (elementTypes args) = some e ∧ t = .set e := by
  unfold setOperationType
  simp only [← map_snd_elementTypes 0 args, List.map_eq_nil_iff]
  generalize (numbered 0 args).filterMap (fun (i, v) =>
    if isEmptyLiteral v then none else some (i, v.ty.elementType)) = types
  by_cases none : types = []
  · simp [none, Ty.unify, eq_comm]
  · rw [if_neg (by simpa using none)]
    simp only [none, false_and, false_or, bind_eq_ok, unifyArguments_eq_ok, Except.ok.injEq]
    exact exists_congr fun e => and_congr_right fun _ => eq_comm

/-- An empty literal that is no longer known to be one leaves everything open. -/
theorem elementTypes_forgets {seen seen' : List Value} (less : List.Forall₂ Forgets seen seen') :
    .dynamic ∈ elementTypes seen' ∨ elementTypes seen' = elementTypes seen := by
  induction less with
  | nil => exact .inr rfl
  | @cons v w seen seen' first _ ih =>
    rw [elementTypes_cons, elementTypes_cons]
    cases first with
    | kept =>
      split
      · exact ih
      · exact ih.imp (List.mem_cons_of_mem _) (congrArg _)
    | unknown r m =>
      have open_ : isEmptyLiteral (.unknown v.ty r m) = false := by
        simp [isEmptyLiteral, Value.elementCount?, Value.elements?, Value.entries?]
      have type : (Value.unknown v.ty r m).ty = v.ty := rfl
      rw [open_, type, if_neg Bool.false_ne_true]
      by_cases literal : isEmptyLiteral v = true
      · simp only [isEmptyLiteral, Bool.and_eq_true, Ty.isDynamic_iff] at literal
        rw [literal.1]
        exact .inl List.mem_cons_self
      · rw [if_neg literal]
        exact ih.imp (List.mem_cons_of_mem _) (congrArg _)

theorem setOperationType_degrades : Degrades setOperationType := by
  intro seen seen' t less h
  rcases elementTypes_forgets less with open_ | same
  · exact ⟨_, setOperationType_eq_ok.2 (.inr ⟨.dynamic, Ty.unify_of_mem_dynamic open_, rfl⟩)⟩
  · refine ⟨t, ?_⟩
    rw [setOperationType_eq_ok, same, ← setOperationType_eq_ok]
    exact h

end MarkedValues.Standard
