import MarkedValues.Proofs.Call.Table
import MarkedValues.Proofs.Standard.Blame.Collections
import MarkedValues.Proofs.Value.Numbers

/-!
Every failed call of a standard function points at an argument that is there and names its
parameter, or does neither, but for one: `range` counts its places among three. A step that it finds
itself leads from the start to the limit, so that no check of the step fails, unless the limit alone
is given: then the step is one, and below zero it leads away.
-/
namespace MarkedValues

open Outcomes
open CallError (Within within_ofMessage)

variable {engine : Regex.Engine}

namespace Standard

variable {seen : List Value} {start limit step : Number}

structure Leads (start limit step : Number) : Prop where
  moves : step.same .zero = false
  up : start.less limit = true → step.less .zero = false
  down : limit.less start = true → Number.zero.less step = false

theorem leads_up (h : limit.less start = false) : Leads start limit (.ofInt 1) := by
  constructor
  · decide +kernel
  · exact fun _ => by decide +kernel
  · intro away
    rw [h] at away
    cases away

theorem leads_down (h : start.less limit = false) : Leads start limit (.ofInt (-1)) := by
  constructor
  · decide +kernel
  · intro away
    rw [h] at away
    cases away
  · exact fun _ => by decide +kernel

/-- A step that is not given leads to the limit, unless the start is not given either. -/
theorem rangeBounds_cases {ks : List Number} (h : rangeBounds ks = some (start, limit, step)) :
    ks.length = 3 ∨ Leads start limit step ∨ ks = [limit] ∧ limit.less .zero = true := by
  match ks, h with
  | [k], h =>
    cases h
    cases below : limit.less .zero with
    | true => exact .inr (.inr ⟨rfl, rfl⟩)
    | false => exact .inr (.inl (leads_up below))
  | [a, k], h =>
    right
    left
    simp only [rangeBounds, Option.some.injEq, Prod.mk.injEq] at h
    obtain ⟨rfl, rfl, rfl⟩ := h
    split
    · next reached =>
      rcases Bool.or_eq_true_iff.1 reached with less | same
      · exact leads_up (Number.less_asymm less)
      · exact leads_up (Number.not_less_of_same same)
    · next beyond =>
      have beyond : a.less k = false ∧ a.same k = false := by simpa using beyond
      exact leads_down beyond.1
  | [a, k, s], h => exact .inl rfl

theorem fails_rangeNumbers (n : Nat) (limit step start : Number) :
    Fails (Within n) (match rangeFrom limit step rangeLimit start with
      | some ns => .ok (.list .number (ns.map .number))
      | none => .error (.ofMessage ("more than 1024 values were generated; either decrease the " ++
          "difference between start and limit or use a smaller step")) : Outcome Value) := by
  split
  · exact fails_ok
  · exact fails_error.2 (within_ofMessage _)

theorem length_of_numbersOf {args : List Value} {ks : List Number} (h : numbersOf args = .ok ks) :
    ks.length = args.length :=
  (length_of_mapM h).trans List.length_range

theorem numbersOf_singleton {v : Value} {k : Number} :
    numbersOf [v] = .ok [k] ↔ v.number? = some k := by
  have read : numbersOf [v] = numberAt [v] 0 >>= fun k => .ok [k] := rfl
  have first : [v][0]?.bind Value.number? = v.number? := rfl
  rw [read, numberAt, first]
  cases v.number? with
  | none => simp [bind, Except.bind]
  | some k => simp [bind, Except.bind]

/-- Handed one number, that is not below zero. -/
theorem range_staysWithin
    (counts : ∀ v k, seen = [v] → v.number? = some k → k.less .zero = false) :
    range.StaysWithin seen := by
  constructor
  · intro resolve rule
    cases rule
  · intro ctx ret
    simp only [range, rangeBody]
    apply (fails_numbersOf _ seen).bind
    intro ks hks
    have length := length_of_numbersOf hks
    split
    · exact fails_error.2 (within_ofMessage _)
    · next start limit step bounds =>
      rcases rangeBounds_cases bounds with three | leads | ⟨rfl, below⟩
      · apply fails_check (by omega)
        intro moves
        apply fails_check (by omega)
        intro up
        apply fails_check (by omega)
        intro down
        exact fails_rangeNumbers _ limit step start
      · have up : ¬ (start.less limit && step.less .zero) = true := by
          simpa using leads.up
        have down : ¬ (limit.less start && Number.zero.less step) = true := by
          simpa using leads.down
        rw [if_neg (by simp [leads.moves]), if_neg up, if_neg down]
        exact fails_rangeNumbers _ limit step start
      · obtain ⟨v, rfl⟩ := List.length_eq_one_iff.1 length.symm
        have above := counts v limit rfl (numbersOf_singleton.1 hks)
        rw [below] at above
        cases above

/-- Where the limit alone is given and is below zero, the step of one leads away from it. -/
theorem rangeBody_below {v : Value} {k : Number} (number : v.number? = some k)
    (below : k.less .zero = true) (ctx : Context) (ret : Ty) :
    rangeBody ctx [v] ret =
      blame 2 "step must be negative when start is greater than limit" := by
  have moves : (Number.ofInt 1).same .zero = false := by decide +kernel
  have positive : Number.less .zero (.ofInt 1) = true := by decide +kernel
  simp only [rangeBody, numbersOf_singleton.2 number, bind, Except.bind, rangeBounds]
  simp [moves, Number.less_asymm positive, below, positive]

/-- One argument, a number below zero once it is converted. -/
def CountsDown (args : List Value) : Prop :=
  ∃ a v k, args = [a] ∧ Value.convert a.erase .number = .ok v ∧ v.number? = some k ∧
    k.less .zero = true

def rangeParam : Param := { name := "params", ty := .number }

theorem range_located (ctx : Context) {args : List Value} (above : ¬ CountsDown args) :
    Fails (range.Located args.length) (range.call ctx args) := by
  apply Function.fails_call
  intro q hq settled
  apply range_staysWithin
  intro v k alone number
  have prepares := Function.prepares_of_prepare hq
  have one : args.length = 1 := by
    rw [← prepares.length_eq, alone]
    rfl
  obtain ⟨a, rfl⟩ := List.length_eq_one_iff.1 one
  have here : q.args[0]? = some v := by rw [alone]; rfl
  obtain ⟨p, hp, _, _, hconv⟩ := prepares.converted settled (j := 0) rfl here
  cases hp
  by_contra below
  exact above ⟨a, v, k, rfl, hconv, number, by simpa using below⟩

theorem receives_of_number? {a v : Value} {k : Number}
    (converted : Value.convert a.erase .number = .ok v) (number : v.number? = some k) :
    rangeParam.Receives a ⟨[v], a.allMarks, false, false⟩ := by
  have state : v.isNull = false ∧ v.isUnknown = false := by
    cases v <;> first | exact ⟨rfl, rfl⟩ | cases number
  have null : a.isNull = false := by
    rw [← Value.isNull_erase, ← Value.isNull_convert converted, state.1]
  have unknown : a.isUnknown = false := by
    rw [← Value.isUnknown_erase, ← Value.isUnknown_convert converted, state.2]
  have settled : a.ty ≠ .dynamic := Value.ty_ne_dynamic null unknown
  have receives : rangeParam.Receives a ⟨[v], rangeParam.taken a, v.isUnknown && !false, false⟩ :=
    .converted (by simp [null]) (fun open_ => absurd open_ settled) converted
  rwa [state.2] at receives

/-- The only argument is the first, and the third is blamed. -/
theorem range_below (ctx : Context) {args : List Value} (below : CountsDown args) :
    range.call ctx args =
      .error ⟨.argument "step must be negative when start is greater than limit", some 2,
        some "params"⟩ := by
  obtain ⟨a, v, k, rfl, converted, number, below⟩ := below
  have receives := receives_of_number? converted number
  have prepared : range.prepare [a] = .ok ⟨[v], a.allMarks, false, false⟩ := by
    rw [← Function.append_nothing ⟨[v], a.allMarks, false, false⟩]
    exact Function.prepareFrom_of_prepares (.cons rfl receives (.nil 1))
  have type : range.resolveType [v] = .ok (.list .number) := rfl
  have failed : range.body ctx [v] (.list .number) =
      blame 2 "step must be negative when start is greater than limit" :=
    rangeBody_below number below ctx (.list .number)
  rw [Function.call_of_prepare prepared, type]
  simp only [Bool.false_eq_true, if_false, bind, Except.bind, Function.finish, failed]
  rfl

theorem careful : ∀ f ∈ functions engine, f = range ∨ Careful f := by
  simp only [functions, List.forall_mem_cons]
  exact ⟨
    .inr (numeric_careful _ _), .inr (boolList_careful _ _ _), .inr (boolList_careful _ _ _),
    .inr (numeric_careful _ _), .inr (stringFunction_careful _ _), .inr chunklist_careful,
    .inr cidrcontains_careful, .inr cidrhost_careful, .inr cidrnetmask_careful,
    .inr cidrsubnet_careful, .inr cidrsubnets_careful, .inr coalesce_careful,
    .inr coalescelist_careful, .inr compact_careful, .inr (setFunction_careful _ _ _),
    .inr concat_careful, .inr contains_careful, .inr distinct_careful, .inr element_careful,
    .inr (stringPair_careful _ _ _ _), .inr env_careful, .inr flatten_careful,
    .inr (numeric_careful _ _), .inr indent_careful, .inr index_careful, .inr issensitive_careful,
    .inr join_careful, .inr keys_careful, .inr length_careful, .inr (numericPair_careful _ _ _),
    .inr lookup_careful, .inr (stringFunction_careful _ _), .inr matchkeys_careful,
    .inr (picking_careful _ _), .inr merge_careful, .inr (picking_careful _ _),
    .inr nonsensitive_careful, .inr parseint_careful, .inr (numericPair_careful _ _ _), .inl trivial,
    .inr regex_careful, .inr regex_replace_careful, .inr regexall_careful, .inr replace_careful,
    .inr reverse_careful, .inr sensitive_careful, .inr (setFunction_careful _ _ _),
    .inr setsubtract_careful, .inr (setFunction_careful _ _ _), .inr (setFunction_careful _ _ _),
    .inr (numeric_careful _ _), .inr slice_careful, .inr sort_careful, .inr split_careful,
    .inr (stringPair_careful _ _ _ _), .inr (stringPair_careful _ _ _ _),
    .inr (stringFunction_careful _ _), .inr substr_careful, .inr sum_careful,
    .inr (stringFunction_careful _ _), .inr (cast_careful _ _), .inr (cast_careful _ _),
    .inr (cast_careful _ _), .inr (cast_careful _ _), .inr (cast_careful _ _),
    .inr (cast_careful _ _), .inr transpose_careful, .inr (stringPair_careful _ _ _ _),
    .inr (stringPair_careful _ _ _ _), .inr (stringFunction_careful _ _),
    .inr (stringPair_careful _ _ _ _), .inr (stringFunction_careful _ _), .inr values_careful,
    .inr zipmap_careful, fun _ h => nomatch h⟩

theorem Careful.located {f : Function} (careful : Careful f) (ctx : Context) (args : List Value) :
    Fails (f.Located args.length) (f.call ctx args) := by
  apply Function.fails_call
  intro q hq settled
  apply careful
  rw [(Function.prepares_of_prepare hq).length_eq]
  exact Function.params_length_le (Function.arityFault?_of_prepare hq)

end Standard

/-- An error of a standard function that blames an argument blames one that is there and names the
    parameter that takes it, and one that blames none names none. The exception is `range` with a
    limit below zero for its only argument: it blames the step, a third argument. -/
theorem standardTable_blames (ctx : Context) {name : String} {f : Function}
    (found : (Standard.table engine).get? name = some f) (args : List Value) :
    (¬ (name = "range" ∧ Standard.CountsDown args) →
      ∀ e, (Standard.table engine).call ctx name args = .error e → f.Located args.length e) ∧
    (name = "range" → Standard.CountsDown args →
      args.length = 1 ∧ ∃ e, (Standard.table engine).call ctx name args = .error e ∧
        e.argument? = some 2 ∧ ¬ f.Located args.length e) := by
  have called : (Standard.table engine).call ctx name args = f.call ctx args := by
    rw [FunctionTable.call, found]
  rw [called]
  obtain ⟨mem, named⟩ := FunctionTable.mem_of_get?_ofList found
  constructor
  · intro outside
    have located : Fails (f.Located args.length) (f.call ctx args) := by
      rcases Standard.careful f mem with rfl | careful
      · have above : ¬ Standard.CountsDown args := fun below => outside ⟨named.symm, below⟩
        exact Standard.range_located ctx above
      · exact careful.located ctx args
    exact fails_iff.1 located
  · rintro rfl below
    have only : f = Standard.range := by
      have there : (Standard.table engine).get? "range" = some Standard.range := standardTable_get? _ rfl
      exact Option.some.inj (found.symm.trans there)
    subst only
    have one : args.length = 1 := by
      obtain ⟨a, v, k, rfl, _⟩ := below
      rfl
    have failed := Standard.range_below ctx below
    refine ⟨one, _, failed, rfl, fun located => ?_⟩
    have inside := (located.placed 2 rfl).1
    omega

/-- A separator and two lists of strings, the second with a null in it. -/
def pieces : List Value :=
  [.string ", ", .stringList ["a"], .list .string [.nullOf .string]]

theorem pieces_and_limit_blamed :
    (∃ e, standardTable.call {} "join" pieces = .error e ∧ e.argument? = some 2 ∧
      Standard.join.Located 3 e) ∧
    Standard.CountsDown [.int (-5)] ∧
    ∃ e, standardTable.call {} "range" [.int (-5)] = .error e ∧ e.argument? = some 2 ∧
      ¬ Standard.range.Located 1 e := by
  have join : standardTable.get? "join" = some Standard.join := standardTable_get? _ rfl
  have range : standardTable.get? "range" = some Standard.range := standardTable_get? _ rfl
  have below : Standard.CountsDown [.int (-5)] :=
    ⟨.int (-5), .int (-5), .ofInt (-5), rfl, Value.convert_of_same (.inr rfl), rfl,
      by decide +kernel⟩
  have other : ¬ ("join" = "range" ∧ Standard.CountsDown pieces) := by simp
  have third : (match standardTable.call {} "join" pieces with
      | .ok _ => none
      | .error e => e.argument?) = some 2 := by
    decide +kernel
  constructor
  · have located := (standardTable_blames {} join pieces).1 other
    cases failed : standardTable.call {} "join" pieces with
    | ok v =>
      rw [failed] at third
      cases third
    | error e =>
      rw [failed] at third
      exact ⟨e, rfl, third, located e failed⟩
  · exact ⟨below, ((standardTable_blames {} range [.int (-5)]).2 rfl below).2⟩

end MarkedValues
