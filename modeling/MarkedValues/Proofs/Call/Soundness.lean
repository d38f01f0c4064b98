import MarkedValues.Proofs.Call.Contract
import MarkedValues.Proofs.Value.Stability

/-!
Functions that keep their own contract. `Ends` says of an outcome that it is a result with
some property or a failure on account of the arguments, never of the function. A `Sound`
function ends so in its rule and in its body whenever it is handed what its parameters take,
and then so do its calls.
-/
namespace MarkedValues

open Outcomes

/-- The function broke its own contract. -/
def CallError.isInternal (e : CallError) : Bool :=
  match e.fault with
  | .internal _ => true
  | _ => false

/-- A result with the property, or a failure that is not internal. -/
def Ends {α : Type} (P : α → Prop) : Outcome α → Prop
  | .ok a => P a
  | .error e => e.isInternal = false

section

variable {α β : Type} {P : α → Prop} {Q : β → Prop}

theorem ends_ok {a : α} (h : P a) : Ends P (.ok a) := h

theorem Ends.imp {x : Outcome α} {R : α → Prop} (h : Ends P x) (imp : ∀ a, P a → R a) :
    Ends R x := by
  cases x with
  | error e => exact h
  | ok a => exact imp a h

theorem Ends.self {x : Outcome α} (h : Ends P x) : Ends (fun a => x = .ok a ∧ P a) x := by
  cases x with
  | error e => exact h
  | ok a => exact ⟨rfl, h⟩

theorem Ends.bind {x : Outcome α} {f : α → Outcome β} (h : Ends P x) (rest : ∀ a, P a → Ends Q (f a)) :
    Ends Q (x >>= f) := by
  cases x with
  | error e => exact h
  | ok a => exact rest a h

theorem ends_ite {c : Prop} [Decidable c] {x y : Outcome α} (pos : c → Ends P x)
    (neg : ¬ c → Ends P y) : Ends P (if c then x else y) := by
  split
  · next h => exact pos h
  · next h => exact neg h

theorem ends_mapM {f : β → Outcome α} {bs : List β} (each : ∀ b ∈ bs, Ends P (f b)) :
    Ends (fun as => ∀ a ∈ as, P a) (bs.mapM f) := by
  induction bs with
  | nil => exact fun a ha => nomatch ha
  | cons b bs ih =>
    rw [List.mapM_cons]
    refine (each b (by simp)).bind fun a ha => ?_
    refine (ih fun b hb => each b (by simp [hb])).bind fun as has => ?_
    exact List.forall_mem_cons.2 ⟨ha, has⟩

theorem Ends.mapError {x : Outcome α} {g : CallError → CallError} (h : Ends P x)
    (same : ∀ e, (g e).fault = e.fault) : Ends P (x.mapError g) := by
  cases x with
  | error e =>
    have fault := same e
    simp only [Ends, CallError.isInternal, mapError_error] at h ⊢
    rwa [fault]
  | ok a => exact h

end

namespace Function

variable {f : Function}

theorem fault_annotate (f : Function) (e : CallError) : (f.annotate e).fault = e.fault := by
  unfold annotate
  split <;> rfl

theorem params_length_le {n : Nat} (h : f.arityFault? n = none) : f.params.length ≤ n := by
  unfold arityFault? at h
  dsimp only at h
  split at h
  · split at h
    · cases h
    · next enough => exact Nat.le_of_not_lt enough
  · split at h
    · next eq => exact Nat.le_of_eq eq.symm
    · cases h

theorem exists_paramFor {n i : Nat} (h : f.arityFault? n = none) (hi : i < n) :
    ∃ p, f.paramFor i = some p := by
  unfold paramFor
  by_cases fixed : i < f.params.length
  · exact ⟨f.params[i], by simp [fixed]⟩
  · have outside : f.params[i]? = none := List.getElem?_eq_none (Nat.le_of_not_lt fixed)
    rw [outside, Option.none_or, ← Option.isSome_iff_exists]
    unfold arityFault? at h
    dsimp only at h
    split at h
    · assumption
    · split at h
      · next eq => exact absurd (eq ▸ hi) fixed
      · cases h

structure Sees (p : Param) (w : Value) : Prop where
  null : w.isNull = true → p.allow.null = true
  dynamicType : w.ty = .dynamic → p.allow.dynamicType = true
  typed : Ty.Matches w.ty p.ty
  built : w.WellFormed

/-- Arguments as a rule gets to see them. -/
structure Resolvable (f : Function) (seen : List Value) : Prop where
  arity : f.arityFault? seen.length = none
  places : ∀ i w, seen[i]? = some w → ∃ p, f.paramFor i = some p ∧ Sees p w

/-- Arguments as a body gets to see them: unknown only where that is allowed. -/
structure Runnable (f : Function) (seen : List Value) : Prop extends f.Resolvable seen where
  known : ∀ i w p, seen[i]? = some w → f.paramFor i = some p → w.isUnknown = true →
    p.allow.unknown = true

/-- The result is null only where that is allowed, and converts to the type it is to have. -/
def Honours (f : Function) (ret : Ty) (r : Value) : Prop :=
  (f.notNull = true → r.isNull = false) ∧ ∃ w, Value.convert r ret = .ok w

theorem honours_of_ty {r : Value} {ret : Ty} (type : r.ty = ret) (present : r.isNull = false) :
    f.Honours ret r :=
  ⟨fun _ => present, r, Value.convert_of_same (.inr type)⟩

/-- A function that never fails on its own account. -/
structure Sound (f : Function) : Prop where
  canonical : ∀ i p, f.paramFor i = some p → p.ty.Canonical
  resolves : ∀ seen, f.Resolvable seen → Ends (fun _ => True) (f.resolveType seen)
  runs : ∀ ctx seen ret, f.Runnable seen → f.resolveType seen = .ok ret →
    Ends (f.Honours ret) (f.body ctx seen ret)

theorem ends_receive (p : Param) (i : Nat) (a : Value) : Ends (fun _ => True) (p.receive i a) := by
  rw [Param.receive_eq]
  refine ends_ite (fun _ => rfl) fun _ => ends_ite (fun _ => trivial) fun _ => ?_
  split
  · rfl
  · trivial

theorem ends_prepareFrom {i : Nat} {args : List Value}
    (params : ∀ j < args.length, ∃ p, f.paramFor (i + j) = some p) :
    Ends (fun _ => True) (f.prepareFrom i args) := by
  induction args generalizing i with
  | nil => trivial
  | cons a rest ih =>
    obtain ⟨p, hp⟩ := params 0 (by simp)
    rw [prepareFrom, show f.paramFor i = some p from hp]
    refine (ends_receive p i a).bind fun first _ => ?_
    refine (ih fun j hj => ?_).bind fun _ _ => trivial
    have := params (j + 1) (by simpa using hj)
    rwa [← Nat.add_assoc, Nat.add_right_comm] at this

theorem ends_prepare (f : Function) (args : List Value) :
    Ends (fun _ => True) (f.prepare args) := by
  unfold prepare
  cases arity : f.arityFault? args.length with
  | some fault =>
    unfold arityFault? at arity
    dsimp only at arity
    split at arity <;> split at arity <;> cases arity <;> rfl
  | none =>
    refine ends_prepareFrom fun j hj => ?_
    rw [Nat.zero_add]
    exact exists_paramFor arity hj

section

variable {args : List Value} {q : Prepared}

theorem resolvable_of_prepare (canonical : ∀ i p, f.paramFor i = some p → p.ty.Canonical)
    (built : ∀ a ∈ args, a.WellFormed) (h : f.prepare args = .ok q)
    (settled : q.deferred = false) : f.Resolvable q.args := by
  have prepares := prepares_of_prepare h
  have arity := arityFault?_of_prepare h
  refine ⟨prepares.length_eq ▸ arity, fun i w hw => ?_⟩
  have inside : i < args.length := prepares.length_eq ▸ (List.getElem?_eq_some_iff.1 hw).1
  obtain ⟨p, hp, null, dynamicType, hconv⟩ :=
    prepares.converted settled (List.getElem?_eq_getElem inside) hw
  rw [Nat.zero_add] at hp
  have stripped : (p.strip args[i]).WellFormed := by
    have here := built _ (List.getElem_mem inside)
    unfold Param.strip
    split
    · exact here
    · exact here.erase
  refine ⟨p, hp, ?_, fun open_ => ?_, ?_, stripped.convert (canonical i p hp) hconv⟩
  · rw [Value.isNull_convert hconv, Param.isNull_strip]
    exact null
  · have := ty_eq_dynamic_of_convert hconv open_
    rw [Param.ty_strip] at this
    exact dynamicType this
  · exact Value.matches_convert (Ty.Matches.refl p.ty) (canonical i p hp) hconv

theorem runnable_of_prepare (canonical : ∀ i p, f.paramFor i = some p → p.ty.Canonical)
    (built : ∀ a ∈ args, a.WellFormed) (h : f.prepare args = .ok q)
    (settled : q.deferred = false) (complete : q.shortCircuit = false) : f.Runnable q.args := by
  have accepted := acceptedAll_args canonical (prepares_of_prepare h) settled complete
  refine ⟨resolvable_of_prepare canonical built h settled, fun i w p hw hp unknown => ?_⟩
  have inside : i < args.length := accepted.1 ▸ (List.getElem?_eq_some_iff.1 hw).1
  obtain ⟨p', hp', taken⟩ := accepted.2 i args[i] w (List.getElem?_eq_getElem inside) hw
  rw [hp] at hp'
  cases hp'
  exact taken.unknown unknown

end

/-- A plan to run hands over arguments that the body takes, with the type of the rule. -/
theorem ends_plan (sound : f.Sound) {args : List Value} (built : ∀ a ∈ args, a.WellFormed) :
    Ends (fun plan => ∀ seen ret marks, plan = .run seen ret marks →
      f.Runnable seen ∧ f.resolveType seen = .ok ret) (f.plan args) := by
  refine (ends_prepare f args).self.bind fun q hq => ?_
  refine ends_ite (fun _ seen ret marks run => nomatch run) fun settled => ?_
  have settled : q.deferred = false := by simpa using settled
  have resolvable := resolvable_of_prepare sound.canonical built hq.1 settled
  refine (sound.resolves q.args resolvable).self.bind fun ret hret => ?_
  refine ends_ite (fun _ seen ret marks run => nomatch run) fun complete seen ret marks run => ?_
  cases run
  have complete : q.shortCircuit = false := by simpa using complete
  exact ⟨runnable_of_prepare sound.canonical built hq.1 settled complete, hret.1⟩

theorem ends_finish {ret : Ty} {outcome : Outcome Value} (marks : MarkSet)
    (h : Ends (f.Honours ret) outcome) : Ends (fun _ => True) (f.finish ret marks outcome) := by
  refine (h.mapError f.fault_annotate).bind fun r honoured => ?_
  obtain ⟨present, w, hw⟩ := honoured
  have ends : Ends (fun _ => True) (f.conform r ret) := by
    unfold conform
    refine ends_ite (fun null => ?_) fun _ => ?_
    · rw [Bool.and_eq_true] at null
      rw [present null.1] at null
      cases null.2
    · rw [hw]
      trivial
  exact ends.bind fun _ _ => trivial

/-- No call of a sound function on well-formed arguments fails on account of the function. -/
theorem Sound.ends_call (sound : f.Sound) (ctx : Context) {args : List Value}
    (built : ∀ a ∈ args, a.WellFormed) : Ends (fun _ => True) (f.call ctx args) := by
  have planned := ends_plan sound built
  rw [call_eq]
  cases h : f.plan args with
  | error e => rwa [h] at planned
  | ok plan =>
    rw [h] at planned
    cases plan with
    | defer marks => trivial
    | unknown ret marks => trivial
    | run seen ret marks =>
      obtain ⟨runnable, resolved⟩ := planned seen ret marks rfl
      exact ends_finish marks (sound.runs ctx seen ret runnable resolved)

end Function

end MarkedValues
