import MarkedValues.Proofs.Call.Table
import MarkedValues.Proofs.Standard.Casts
import MarkedValues.Proofs.Standard.Rules

/-!
Unknown arguments are no errors for the standard functions. Most bodies see no unknowns,
so there it is a matter of the rules; the bodies that take unknowns have a result for them
of the type in question.
-/
namespace MarkedValues

variable {engine : Regex.Engine}

namespace Standard

open Outcomes
open Value (Forgets)
open MarkedValues.Function (Plain)

/-- Built of primitives, `dynamic` and collections. -/
def isPlain : Ty → Bool
  | .list e | .set e | .map e => isPlain e
  | .tuple _ | .object _ => false
  | _ => true

theorem plain_of_isPlain {t : Ty} (h : isPlain t = true) : Plain t := by
  have canonical : t.Canonical := by
    induction t with
    | list e ih | set e ih | map e ih => exact ih h
    | tuple ts _ => cases h
    | object attrs _ => cases h
    | _ => trivial
  cases t <;> first | exact ⟨rfl, rfl, canonical⟩ | cases h

def plainParams (f : Function) : Bool := f.everyParam fun p => isPlain p.ty

def refusesUnknowns (f : Function) : Bool := f.everyParam fun p => !p.allow.unknown

section

variable {f : Function}

theorem plain_of_plainParams (h : plainParams f = true) :
    ∀ i p, f.paramFor i = some p → Plain p.ty :=
  fun _ _ hp => plain_of_isPlain (Function.check_of_everyParam h hp)

theorem resolves_of_fixed {t : Ty} (rule : f.rule = .fixed t) (seen : List Value) :
    f.resolveType seen = .ok t := by
  rw [Function.resolveType, rule]

theorem rule_of_resolveType {rule : Resolver} (resolved : f.rule = .resolved rule)
    {seen : List Value} {ret : Ty} (h : f.resolveType seen = .ok ret) : rule seen = .ok ret := by
  rwa [Function.resolveType, resolved, mapError_eq_ok] at h

theorem resolves_of_degrades {rule : Resolver} (resolved : f.rule = .resolved rule)
    (degrades : Degrades rule) {seen seen' : List Value} {ret : Ty}
    (less : List.Forall₂ Forgets seen seen') (h : f.resolveType seen = .ok ret) :
    ∃ ret', f.resolveType seen' = .ok ret' := by
  simp only [Function.resolveType, resolved, mapError_eq_ok] at h ⊢
  exact degrades less h

theorem bearsUnknown_of_rule {rule : Resolver} (params : plainParams f = true)
    (strict : refusesUnknowns f = true) (resolved : f.rule = .resolved rule)
    (degrades : Degrades rule) : f.BearsUnknown := by
  refine Function.bearsUnknown_of_strict (plain_of_plainParams params) (fun i p hp => ?_)
    (resolves_of_degrades resolved degrades)
  simpa using Function.check_of_everyParam strict hp

def isSettled (f : Function) : Bool :=
  plainParams f && refusesUnknowns f && match f.rule with
    | .fixed _ => true
    | .resolved _ => false

theorem bearsUnknown_of_isSettled (h : isSettled f = true) : f.BearsUnknown := by
  simp only [isSettled, Bool.and_eq_true] at h
  obtain ⟨⟨params, strict⟩, fixed⟩ := h
  refine Function.bearsUnknown_of_strict (plain_of_plainParams params) (fun i p hp => ?_) ?_
  · simpa using Function.check_of_everyParam strict hp
  · intro seen seen' ret _ _
    cases rule : f.rule with
    | fixed t => exact ⟨t, resolves_of_fixed rule _⟩
    | resolved resolve =>
      rw [rule] at fixed
      cases fixed

theorem exists_finish {r w : Value} {ret : Ty} (h : Value.convert r ret = .ok w)
    (present : ¬ (f.notNull && r.isNull) = true) :
    ∃ v, f.finish ret ∅ (.ok r) = .ok v := by
  have conforms : ∃ u, f.conform r ret = .ok u := by
    rw [Function.conform, if_neg present, h]
    exact ⟨_, rfl⟩
  obtain ⟨u, hu⟩ := conforms
  refine ⟨u.withMarks ∅, ?_⟩
  simp only [Function.finish, mapError_ok, bind, Except.bind, hu]

theorem exists_finish_of_ty {r : Value} {ret : Ty} (type : r.ty = ret)
    (present : ¬ (f.notNull && r.isNull) = true) : ∃ v, f.finish ret ∅ (.ok r) = .ok v :=
  exists_finish (Value.convert_of_same (.inr type)) present

theorem bearsUnknown_of_total (params : plainParams f = true)
    (resolves : ∀ {seen seen' : List Value} {ret : Ty}, List.Forall₂ Forgets seen seen' →
      f.resolveType seen = .ok ret → ∃ ret', f.resolveType seen' = .ok ret')
    (total : ∀ ctx seen ret, f.resolveType seen = .ok ret →
      ∃ r, f.body ctx seen ret = .ok r ∧ r.ty = ret ∧ (f.notNull && r.isNull) = false) :
    f.BearsUnknown where
  plain := plain_of_plainParams params
  resolves := resolves
  runs := by
    intro ctx seen seen' ret ret' v _ _ _ _ hret' _
    obtain ⟨r, hr, type, present⟩ := total ctx seen' ret' hret'
    rw [hr]
    exact exists_finish_of_ty type (by simp [present])

end

theorem sensitive_bearsUnknown : sensitive.BearsUnknown := by
  refine bearsUnknown_of_total rfl (resolves_of_degrades rfl typeOfFirst_readsTypes.degrades) ?_
  intro ctx seen ret h
  cases rule_of_resolveType (f := sensitive) rfl h
  exact ⟨_, rfl, Value.ty_setMarks _ _, rfl⟩

theorem nonsensitive_bearsUnknown : nonsensitive.BearsUnknown := by
  refine bearsUnknown_of_total rfl (resolves_of_degrades rfl typeOfFirst_readsTypes.degrades) ?_
  intro ctx seen ret h
  cases rule_of_resolveType (f := nonsensitive) rfl h
  exact ⟨_, rfl, Value.ty_setMarks _ _, rfl⟩

theorem issensitive_bearsUnknown : issensitive.BearsUnknown := by
  refine bearsUnknown_of_total rfl (fun _ _ => ⟨.bool, rfl⟩) ?_
  intro ctx seen ret h
  cases h
  exact ⟨_, rfl, rfl, rfl⟩

theorem env_bearsUnknown : env.BearsUnknown := by
  refine bearsUnknown_of_total rfl (fun _ _ => ⟨.string, rfl⟩) ?_
  intro ctx seen ret h
  cases h
  have body : env.body ctx seen .string = envBody ctx seen .string := rfl
  rw [body, envBody]
  split <;> exact ⟨_, rfl, by simp; rfl, Bool.and_eq_false_imp.2 fun _ => by simp; rfl⟩

theorem length_bearsUnknown : length.BearsUnknown := by
  refine bearsUnknown_of_total rfl (resolves_of_degrades rfl lengthType_readsTypes.degrades) ?_
  intro ctx seen ret h
  have rule := rule_of_resolveType (f := length) rfl h
  have number : ret = .number := by
    unfold lengthType at rule
    split at rule <;> cases rule
    rfl
  subst number
  simp only [length]
  split <;> exact ⟨_, rfl, rfl, rfl⟩

theorem castType_congr {seen seen' : List Value} (less : List.Forall₂ Forgets seen seen')
    (name : String) (target : Ty) :
    (cast name target).resolveType seen' = (cast name target).resolveType seen := by
  simp only [Function.resolveType, cast, argument_ty (types_of_forgets less) 0]

theorem cast_bearsUnknown {target : Ty} (h : CastTarget target) (name : String) :
    (cast name target).BearsUnknown where
  plain := plain_of_plainParams rfl
  resolves := fun less hret => ⟨_, (castType_congr less name target).trans hret⟩
  runs := by
    intro ctx seen seen' ret ret' v _ less _ hret hret' hv
    rw [castType_congr less, hret] at hret'
    cases hret'
    have first := argument_forgets less 0
    have found := resolveType_cast h hret
    have body : ∀ args, (cast name target).body ctx args ret = castOutcome (argument args 0) ret :=
      fun _ => rfl
    rw [body] at hv ⊢
    generalize argument seen' 0 = b at first ⊢
    generalize argument seen 0 = a at first found hv
    cases first with
    | kept => exact ⟨v, hv⟩
    | unknown r m =>
      obtain ⟨result, w, hresult, hw, _⟩ := Function.finish_eq_ok hv
      have converts : ∃ x, Value.convert a ret = .ok x := by
        unfold castOutcome at hresult
        split at hresult
        · next x hx => exact ⟨x, hx⟩
        · cases hresult
      obtain ⟨x, hx⟩ := converts
      obtain ⟨u, hu⟩ := Value.conversionType_isSome hx
      -- The rule has found `ret` by conversion already, and finds the same again.
      cases h.settled found hu
      rw [castOutcome, Value.convert_unknown hu]
      exact exists_finish_of_ty rfl (by simp [cast])

theorem coalesceFrom_forgets {ret : Ty} {i : Nat} {seen seen' : List Value} {v : Value}
    (less : List.Forall₂ Forgets seen seen') (h : coalesceFrom ret i seen = .ok v) :
    coalesceFrom ret i seen' = .ok v ∨ coalesceFrom ret i seen' = .ok (.unknownOf ret) := by
  induction less generalizing i with
  | nil => exact .inl h
  | @cons a b seen seen' first _ ih =>
    rw [coalesceFrom] at h ⊢
    obtain ⟨x, hx, h⟩ := bind_eq_ok.1 h
    cases first with
    | kept =>
      rw [hx]
      simp only [bind, Except.bind]
      split
      · exact .inr rfl
      · next known =>
        rw [if_neg known] at h
        split
        · next empty =>
          rw [if_pos empty] at h
          exact ih h
        · next chosen =>
          rw [if_neg chosen] at h
          exact .inl h
    | unknown r m =>
      obtain ⟨u, hu⟩ := Value.conversionType_isSome (mapError_eq_ok.1 hx)
      rw [convertAt, Value.convert_unknown hu]
      exact .inr rfl

theorem finish_of_choice {f : Function} (nullable : f.notNull = false) {ret : Ty}
    {outcome outcome' : Outcome Value} {v : Value} (h : f.finish ret ∅ outcome = .ok v)
    (choice : ∀ r, outcome = .ok r → outcome' = .ok r ∨ outcome' = .ok (.unknownOf ret)) :
    ∃ w, f.finish ret ∅ outcome' = .ok w := by
  obtain ⟨r, _, hr, _⟩ := Function.finish_eq_ok h
  subst hr
  rcases choice r rfl with same | open_
  · rw [same]
    exact ⟨v, h⟩
  · rw [open_]
    exact exists_finish_of_ty rfl (by simp [nullable])

theorem coalesce_bearsUnknown : coalesce.BearsUnknown where
  plain := plain_of_plainParams rfl
  resolves := resolves_of_degrades rfl coalesceType_readsTypes.degrades
  runs := by
    intro ctx seen seen' ret ret' v _ less _ hret hret' hv
    have rule := rule_of_resolveType (f := coalesce) rfl hret
    have rule' := rule_of_resolveType (f := coalesce) rfl hret'
    rw [coalesceType_readsTypes (types_of_forgets less), rule] at rule'
    cases rule'
    exact finish_of_choice rfl hv fun r hr => coalesceFrom_forgets less hr

theorem coalescelistFrom_forgets {ret : Ty} {i : Nat} {seen seen' : List Value} {v : Value}
    (less : List.Forall₂ Forgets seen seen') (h : coalescelistFrom ret i seen = .ok v) :
    coalescelistFrom ret i seen' = .ok v ∨ coalescelistFrom ret i seen' = .ok (.unknownOf ret) := by
  induction less generalizing i with
  | nil => exact .inl h
  | @cons a b seen seen' first _ ih =>
    rw [coalescelistFrom] at h ⊢
    cases first with
    | kept =>
      split
      · exact .inr rfl
      · next known =>
        rw [if_neg known] at h
        split
        · next filled =>
          rw [if_pos filled] at h
          exact .inl h
        · next empty =>
          rw [if_neg empty] at h
          exact ih h
    | unknown r m =>
      have unknown : (Value.unknown a.ty r m).isUnknown = true := rfl
      rw [if_pos unknown]
      exact .inr rfl

theorem coalescelist_bearsUnknown : coalescelist.BearsUnknown where
  plain := plain_of_plainParams rfl
  resolves := resolves_of_degrades rfl coalescelistType_degrades
  runs := by
    intro ctx seen seen' ret ret' v _ less _ hret hret' hv
    have rule := eq_of_coalescelistType (rule_of_resolveType (f := coalescelist) rfl hret)
    have rule' := eq_of_coalescelistType (rule_of_resolveType (f := coalescelist) rfl hret')
    rw [types_of_forgets less, ← rule] at rule'
    subst rule'
    exact finish_of_choice rfl hv fun r hr => coalescelistFrom_forgets less hr

theorem argument_canonical {args : List Value} (types : ∀ a ∈ args, a.ty.Canonical) (i : Nat) :
    (argument args i).ty.Canonical := by
  rw [argument, List.getD_eq_getElem?_getD]
  cases h : args[i]? with
  | none => trivial
  | some a => exact types a (List.mem_of_getElem? h)

theorem lookupType_canonical {args : List Value} {t : Ty} (types : ∀ a ∈ args, a.ty.Canonical)
    (h : lookupType args = .ok t) : t.Canonical := by
  have mapping := argument_canonical types 0
  have default : ∀ d, args[2]?.map Value.ty = some d → d.Canonical := by
    intro d hd
    obtain ⟨a, ha, rfl⟩ := Option.map_eq_some_iff.1 hd
    exact types a (List.mem_of_getElem? ha)
  unfold lookupType at h
  split at h
  · cases h
  · obtain ⟨_, _, h⟩ := bind_eq_ok.1 h
    simp only at h
    split at h
    · next e shape =>
      rw [shape, Ty.canonical_map] at mapping
      split at h
      · cases h
        exact mapping
      · next d hd =>
        split at h
        · next u hu =>
          cases h
          refine Ty.canonical_unify (fun s hs => ?_) hu
          rcases List.mem_cons.1 hs with rfl | hs
          · exact mapping
          · exact List.mem_singleton.1 hs ▸ default d hd
        · cases h
    · next attrs shape =>
      rw [shape] at mapping
      cases h
      cases attr : (argument args 1).string?.bind fun k => attrs.lookup k with
      | none =>
        rw [Option.none_or]
        cases hd : args[2]?.map Value.ty with
        | none => trivial
        | some d => exact default d hd
      | some a =>
        obtain ⟨k, _, found⟩ := Option.bind_eq_some_iff.1 attr
        exact Ty.canonicalAttrs_iff.1 mapping.2 _ (Dict.mem_of_lookup found)
    · cases h
      trivial

/-- Only the default can be less known, and then it converts to an unknown. -/
theorem lookupBody_forgets {ctx : Context} {seen seen' : List Value} {ret : Ty} {r : Value}
    (canonical : ret.Canonical) (less : List.Forall₂ Forgets seen seen')
    (mapping : seen'[0]? = seen[0]?) (key : seen'[1]? = seen[1]?)
    (h : lookupBody ctx seen ret = .ok r) :
    lookupBody ctx seen' ret = .ok r ∨
      ∃ u q m, lookupBody ctx seen' ret = .ok (.unknown u q m) ∧ Ty.Fills u ret := by
  have text : textAt seen' 1 = textAt seen 1 := by
    rw [textAt, textAt, key]
  unfold lookupBody at h ⊢
  rw [text, argument_congr mapping]
  obtain ⟨k, hk, h⟩ := bind_eq_ok.1 h
  rw [hk]
  simp only [bind, Except.bind]
  split at h
  · next found =>
    rw [found]
    exact .inl h
  · next default missing present =>
    rw [missing]
    obtain ⟨default', present', first⟩ := Lists.forall₂_getElem? less present
    rw [present']
    cases first with
    | kept => exact .inl h
    | unknown q m =>
      obtain ⟨u, hu⟩ := Value.conversionType_isSome (mapError_eq_ok.1 h)
      have filled : Ty.Fills u ret := (Ty.conversionType_matches hu).fills canonical
      refine .inr ⟨u, q, m, ?_, filled⟩
      simp only [convertAt, Value.convert_unknown hu]
      rfl
  · cases h

theorem lookup_bearsUnknown : lookup.BearsUnknown where
  plain := plain_of_plainParams rfl
  resolves := resolves_of_degrades rfl lookupType_degrades
  runs := by
    intro ctx seen seen' ret ret' v types less agree hret hret' hv
    have mapping : seen'[0]? = seen[0]? := agree 0 fun p hp => by cases hp; rfl
    have key : seen'[1]? = seen[1]? := agree 1 fun p hp => by cases hp; rfl
    have rule := rule_of_resolveType (f := lookup) rfl hret
    have rule' := rule_of_resolveType (f := lookup) rfl hret'
    have text : (argument seen' 1).string? = (argument seen 1).string? := by rw [argument_congr key]
    rw [lookupType_congr (types_of_forgets less) text, rule] at rule'
    cases rule'
    obtain ⟨r, _, hr, _⟩ := Function.finish_eq_ok hv
    have body : lookupBody ctx seen ret = .ok r := hr
    have body' : ∀ args, lookup.body ctx args ret = lookupBody ctx args ret := fun _ => rfl
    rw [body', body] at hv
    rw [body']
    have canonical := lookupType_canonical types rule
    rcases lookupBody_forgets canonical less mapping key body with same | ⟨u, q, m, open_, filled⟩
    · rw [same]
      exact ⟨v, hv⟩
    · rw [open_]
      exact exists_finish (Value.convert_unknown filled q m) (by simp [lookup])

/-- The functions whose type depends on their arguments or that take unknown ones. -/
theorem unsettled_functions : (functions engine).filter (fun f => !isSettled f) =
    [chunklist, coalesce, coalescelist, compliment, concat, distinct, element, env, flatten,
     issensitive, keys, length, lookup, matchkeys, merge, nonsensitive, regex engine,
     regexall engine, reverse, sensitive, setintersection, setsubtract, setsymmetricdifference,
     setunion, slice, tobool, tolist, tomap, tonumber, toset, tostring, values, zipmap] := rfl

theorem unsettled_bearsUnknown :
    ∀ f ∈ (functions engine).filter (fun f => !isSettled f), f.BearsUnknown := by
  simp only [unsettled_functions, List.forall_mem_cons]
  exact ⟨
    bearsUnknown_of_rule rfl rfl rfl chunklistType_readsTypes.degrades, coalesce_bearsUnknown,
    coalescelist_bearsUnknown, bearsUnknown_of_rule rfl rfl rfl setOperationType_degrades,
    bearsUnknown_of_rule rfl rfl rfl concatType_degrades,
    bearsUnknown_of_rule rfl rfl rfl typeOfFirst_readsTypes.degrades,
    bearsUnknown_of_rule rfl rfl rfl elementTypeAt_degrades, env_bearsUnknown,
    bearsUnknown_of_rule rfl rfl rfl flattenType_degrades, issensitive_bearsUnknown,
    bearsUnknown_of_rule rfl rfl rfl keysType_readsTypes.degrades, length_bearsUnknown,
    lookup_bearsUnknown, bearsUnknown_of_rule rfl rfl rfl matchkeysType_readsTypes.degrades,
    bearsUnknown_of_rule rfl rfl rfl mergeType_degrades, nonsensitive_bearsUnknown,
    bearsUnknown_of_rule rfl rfl rfl regexType_degrades,
    bearsUnknown_of_rule rfl rfl rfl regexallType_degrades,
    bearsUnknown_of_rule rfl rfl rfl reverseType_readsTypes.degrades, sensitive_bearsUnknown,
    bearsUnknown_of_rule rfl rfl rfl setOperationType_degrades,
    bearsUnknown_of_rule rfl rfl rfl setOperationType_degrades,
    bearsUnknown_of_rule rfl rfl rfl setOperationType_degrades,
    bearsUnknown_of_rule rfl rfl rfl setOperationType_degrades,
    bearsUnknown_of_rule rfl rfl rfl sliceType_degrades, cast_bearsUnknown .bool _,
    cast_bearsUnknown .list _, cast_bearsUnknown .map _, cast_bearsUnknown .number _,
    cast_bearsUnknown .set _, cast_bearsUnknown .string _,
    bearsUnknown_of_rule rfl rfl rfl valuesType_readsTypes.degrades,
    bearsUnknown_of_rule rfl rfl rfl zipmapType_degrades,
    fun _ h => nomatch h⟩

theorem bearsUnknown {f : Function} (mem : f ∈ functions engine) : f.BearsUnknown := by
  cases settled : isSettled f with
  | true => exact bearsUnknown_of_isSettled settled
  | false => exact unsettled_bearsUnknown f (List.mem_filter.2 ⟨mem, by simp [settled]⟩)

end Standard

open Standard Value Outcomes

/-- Unknown is never an error: where a call by name succeeds, it does so with unknowns of the same
    types in the place of any arguments, refined or not and with any marks. -/
theorem standardTable_call_forgets (ctx : Context) (name : String) {args args' : List Value}
    (types : ∀ a ∈ args, a.ty.Canonical) (less : List.Forall₂ Forgets args args') {v : Value}
    (h : (table engine).call ctx name args = .ok v) :
    ∃ w, (table engine).call ctx name args' = .ok w := by
  unfold FunctionTable.call at h ⊢
  cases found : (table engine).get? name with
  | none =>
    rw [found] at h
    cases h
  | some f =>
    rw [found] at h
    have mem := (FunctionTable.mem_of_get?_ofList found).1
    exact Function.call_forgets (bearsUnknown mem) types less h

def cutPair : List Value := [.tuple [.string "a", .bool true], .int 0, .int 1]

def openEndedPair : List Value :=
  [.tuple [.string "a", .bool true], .int 0, .unknown .number true (.singleton sensitiveMark)]

theorem slice_forgets_its_end :
    (∀ a ∈ cutPair, a.ty.Canonical) ∧ List.Forall₂ Forgets cutPair openEndedPair ∧
      ∃ v, standardTable.call {} "slice" cutPair = .ok v ∧
        ∃ w, standardTable.call {} "slice" openEndedPair = .ok w := by
  have types : ∀ a ∈ cutPair, a.ty.Canonical := by
    simp [cutPair, Value.ty, Value.tuple, Value.string, Value.bool, Value.int, Value.number,
      Ty.Canonical, Scalar.ty]
  have less : List.Forall₂ Forgets cutPair openEndedPair :=
    .cons .kept (.cons .kept (.cons (.unknown true _) .nil))
  have runs : (standardTable.call {} "slice" cutPair).isOk = true := by decide +kernel
  obtain ⟨v, hv⟩ := exists_ok_of_isOk runs
  exact ⟨types, less, v, hv, standardTable_call_forgets {} "slice" types less hv⟩

end MarkedValues
