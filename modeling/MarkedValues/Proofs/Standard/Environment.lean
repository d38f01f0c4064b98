import MarkedValues.Proofs.Call.MarkFlow
import MarkedValues.Proofs.Value.KeptMarks
import MarkedValues.Standard.Environment

/-!
Marks and environment variables. The name of a variable may be marked, and the value read is then
marked the same. There is one gap: a name whose type is not known makes the call wait, and the
unknown that stands in for its result has lost the marks of the name.
-/
namespace MarkedValues.Standard

open Outcomes
open Ty (Keeps)

theorem call_env (ctx : Context) (k : Value) :
    env.call ctx [k] =
      if k.isNull then
        .error ((CallError.mustNotBeNull.atArgument 0).atParameter "key")
      else if k.ty.isDynamic then .ok .dynamic
      else match Value.convert k .string with
      | .error e => .error (((CallError.ofConversion e).atArgument 0).atParameter "key")
      | .ok key => env.finish .string ∅ (envBody ctx [key] .string) := by
  have strip : keyParam.strip k = k := rfl
  have taken : keyParam.taken k = ∅ := rfl
  rw [Function.call_single (p := keyParam) rfl rfl, Param.receive_eq, strip, taken]
  simp only [keyParam, Bool.not_false, Bool.and_true]
  by_cases null : k.isNull = true
  · rw [if_pos null, if_pos null]
    rfl
  · rw [if_neg null, if_neg null]
    by_cases open_ : k.ty.isDynamic = true
    · rw [if_pos open_, if_pos open_]
      rfl
    · rw [if_neg open_, if_neg open_]
      cases Value.convert k .string with
      | error e => rfl
      | ok key =>
        simp [bind, Except.bind, Function.resolveType, env]

theorem envBody_erase (ctx : Context) (key : Value) (ret : Ty) :
    envBody ctx [key.erase] ret = (envBody ctx [key] ret).map Value.erase := by
  have first : ∀ v : Value, argument [v] 0 = v := fun _ => rfl
  simp only [envBody, first, Value.string?_erase, Value.marks_erase, Value.withMarks_empty]
  cases key.string? with
  | none =>
    simp only [Except.map, Value.erase_withMarks]
    rfl
  | some name =>
    simp only [Except.map, Value.erase_withMarks]
    rfl

theorem call_env_erase (ctx : Context) (k : Value) :
    env.call ctx [k.erase] = (env.call ctx [k]).map Value.erase := by
  rw [call_env, call_env, Value.isNull_erase, Value.ty_erase, Value.convert_erase]
  by_cases null : k.isNull = true
  · rw [if_pos null, if_pos null]
    rfl
  · rw [if_neg null, if_neg null]
    by_cases open_ : k.ty.isDynamic = true
    · rw [if_pos open_, if_pos open_]
      rfl
    · rw [if_neg open_, if_neg open_]
      cases Value.convert k .string with
      | error e => rfl
      | ok key =>
        simp only [Except.map, envBody_erase]
        exact Function.finish_erase env .string (envBody ctx [key] .string)

theorem allMarks_of_string {v : Value} (h : v.ty = .string) : v.allMarks = v.marks := by
  cases v with
  | sequence k es m => cases k <;> cases h
  | mapping k es m => cases k <;> cases h
  | _ => rfl

theorem allMarks_envBody {ctx : Context} {key r : Value} {ret : Ty}
    (h : envBody ctx [key] ret = .ok r) : r.ty = .string ∧ r.allMarks = key.marks := by
  have first : argument [key] 0 = key := rfl
  simp only [envBody, first] at h
  split at h
  all_goals
    cases h
    rw [Value.ty_withMarks, Value.allMarks_withMarks]
    exact ⟨rfl, MarkSet.empty_union _⟩

theorem allMarks_call_env {ctx : Context} {k v : Value} (wf : k.WellFormed) (typed : k.ty ≠ .dynamic)
    (hv : env.call ctx [k] = .ok v) : v.allMarks = k.allMarks := by
  rw [call_env] at hv
  split at hv
  · cases hv
  · rw [if_neg (by simpa using typed)] at hv
    split at hv
    · cases hv
    · next key hkey =>
      obtain ⟨result, w, hresult, hw, rfl⟩ := Function.finish_eq_ok hv
      obtain ⟨_, u, hu, rfl⟩ := Function.conform_eq_ok hw
      obtain ⟨type, marks⟩ := allMarks_envBody hresult
      rw [Value.convert_of_same (.inr type)] at hu
      cases hu
      have canonical : Ty.Canonical .string := trivial
      have kept : key.allMarks = k.allMarks :=
        Value.allMarks_convert wf canonical (.primitive k.ty rfl) hkey
      have string : key.ty = .string := Value.matches_convert (.refl .string) canonical hkey
      have refined : result.refineNotNull.allMarks = result.allMarks := by
        cases result <;> rfl
      have declared : env.notNull = true := rfl
      rw [Value.withMarks_empty, if_pos declared, refined, marks, ← allMarks_of_string string, kept]

/-- The one argument is a marked name whose type is not known. -/
def MarkedOpenName (args : List Value) : Prop :=
  ∃ k, args = [k] ∧ k.ty = .dynamic ∧ k.isUnknown = true ∧ k.isMarked = true

theorem eq_unknown_of_dynamic {k : Value} (open_ : k.ty = .dynamic) (present : k.isNull = false) :
    ∃ r m, k = .unknown .dynamic r m := by
  cases k with
  | null t m => cases present
  | unknown t r m => exact ⟨r, m, by rw [← open_]; rfl⟩
  | scalar s m => cases s <;> cases open_
  | sequence k es m => cases k <;> cases open_
  | mapping k es m => cases k <;> cases open_

/-- The call waits for the type of the name, and keeps no marks of it. -/
theorem call_env_of_open (ctx : Context) (r : Bool) (m : MarkSet) :
    env.call ctx [.unknown .dynamic r m] = .ok .dynamic :=
  call_env ctx (.unknown .dynamic r m)

/-- Reading a variable carries marks, unless the name is marked and its type is not known. -/
theorem carriesMarks_env_iff (ctx : Context) {args : List Value} (wf : ∀ a ∈ args, a.WellFormed) :
    env.CarriesMarks ctx args ↔ ¬ MarkedOpenName args := by
  constructor
  · rintro carries ⟨k, rfl, open_, unknown, marked⟩
    have present : k.isNull = false := by
      cases k <;> simp [Value.isUnknown, Value.isNull] at unknown ⊢
    obtain ⟨r, m, rfl⟩ := eq_unknown_of_dynamic open_ present
    have waits := call_env_of_open ctx r m
    rcases carries with ⟨e, failed, _⟩ | ⟨v, w, hv, _, _, marks⟩
    · cases failed.symm.trans waits
    · cases hv.symm.trans waits
      have none : m = ∅ := (MarkSet.union_eq_empty.1 marks.symm).1
      subst none
      cases marked
  · intro clean
    by_cases one : args.length = 1
    · obtain ⟨k, rfl⟩ := List.length_eq_one_iff.1 one
      refine Function.carriesMarks_of_erase (call_env_erase ctx k) fun v hv => ?_
      have all : Value.marksOfAll [k] = k.allMarks := MarkSet.union_empty _
      rw [all]
      by_cases open_ : k.ty = .dynamic
      · cases present : k.isNull with
        | true =>
          rw [call_env, if_pos present] at hv
          cases hv
        | false =>
          obtain ⟨r, m, rfl⟩ := eq_unknown_of_dynamic open_ present
          cases hv.symm.trans (call_env_of_open ctx r m)
          have unmarked : ¬ (Value.unknown .dynamic r m).isMarked = true :=
            fun marked => clean ⟨_, rfl, open_, rfl, marked⟩
          have none : m = ∅ := by simpa [Value.isMarked, Value.marks] using unmarked
          rw [none]
          rfl
      · exact allMarks_call_env (wf k (by simp)) open_ hv
    · have refused := Function.call_of_length_ne (f := env) rfl rfl one ctx
      have erased : (args.map Value.erase).length ≠ 1 := by simpa using one
      have refused' := Function.call_of_length_ne (f := env) rfl rfl erased ctx
      rw [List.length_map] at refused'
      exact .inl ⟨_, refused, refused'⟩

end MarkedValues.Standard
