import MarkedValues.Proofs.Call.Preparation

/-!
Calls with known primitives. Arguments without marks that have the types of their parameters reach
the body as they are, and what the body gives comes back as it is when it has the declared type.
-/
namespace MarkedValues.Function

open Outcomes

variable {f : Function}

/-- The primitives, as arguments from place `i` on, have the types of their parameters. -/
inductive Takes (f : Function) : Nat → List Scalar → Prop
  | nil (i : Nat) : Takes f i []
  | cons {i : Nat} {p : Param} {c : Scalar} {cs : List Scalar} :
    f.paramFor i = some p → p.ty = c.ty → Takes f (i + 1) cs → Takes f i (c :: cs)

theorem takes_rest {p : Param} (rest : f.varParam = some p) {cs : List Scalar}
    (typed : ∀ c ∈ cs, p.ty = c.ty) {i : Nat} (behind : f.params.length ≤ i) : f.Takes i cs := by
  induction cs generalizing i with
  | nil => exact .nil i
  | cons c cs ih =>
    have param : f.paramFor i = some p := by
      rw [paramFor, List.getElem?_eq_none behind, Option.none_or, rest]
    exact .cons param (typed c List.mem_cons_self)
      (ih (fun d hd => typed d (List.mem_cons_of_mem c hd)) (Nat.le_succ_of_le behind))

theorem prepares_scalars {i : Nat} {cs : List Scalar} (typed : f.Takes i cs) :
    f.Prepares i (cs.map (Value.scalar · ∅)) ⟨cs.map (Value.scalar · ∅), ∅, false, false⟩ := by
  induction typed with
  | nil i => exact .nil i
  | @cons i p c cs hp type _ later =>
    have stripped : p.strip (.scalar c ∅) = .scalar c ∅ := ite_self _
    have taken : p.taken (.scalar c ∅) = ∅ := ite_self _
    have same : Value.convert (p.strip (.scalar c ∅)) p.ty = .ok (.scalar c ∅) := by
      rw [stripped]
      exact Value.convert_of_same (.inr type.symm)
    have settled : (Value.scalar c ∅).ty ≠ .dynamic := by cases c <;> exact Ty.noConfusion
    have first := Param.Receives.converted (p := p) (by simp [Value.isNull])
      (fun dynamic => absurd dynamic settled) same
    rw [taken] at first
    exact .cons hp first later

theorem finish_eq_ok_iff {ret : Ty} {outcome : Outcome Value} {v : Value}
    (typed : ∀ w, outcome = .ok w → w.ty = ret ∧ w.isNull = false ∧ w.isUnknown = false) :
    f.finish ret ∅ outcome = .ok v ↔ outcome = .ok v := by
  constructor
  · intro h
    obtain ⟨result, w, hresult, hw, rfl⟩ := finish_eq_ok h
    obtain ⟨type, present, known⟩ := typed result hresult
    rw [conform_of_ty type present known] at hw
    cases hw
    rw [Value.withMarks_empty]
    exact hresult
  · intro h
    obtain ⟨type, present, known⟩ := typed v h
    rw [h, finish]
    simp only [mapError_ok, bind, Except.bind, conform_of_ty type present known,
      Value.withMarks_empty]

section

variable {cs : List Scalar} (arity : f.arityFault? cs.length = none) (taken : f.Takes 0 cs) {ret : Ty}
  (fixed : f.rule = .fixed ret) {ctx : Context}

include arity taken fixed

theorem call_scalars : f.call ctx (cs.map (Value.scalar · ∅)) =
    f.finish ret ∅ (f.body ctx (cs.map (Value.scalar · ∅)) ret) := by
  have prepared : f.prepare (cs.map (Value.scalar · ∅)) =
      .ok ⟨cs.map (Value.scalar · ∅), ∅, false, false⟩ := by
    rw [prepare, List.length_map, arity]
    exact prepareFrom_of_prepares (prepares_scalars taken)
  rw [call_of_prepare prepared, resolveType, fixed]
  rfl

/-- A call with known primitives succeeds as its body does. -/
theorem call_eq_ok_iff {v : Value}
    (typed : ∀ w, f.body ctx (cs.map (Value.scalar · ∅)) ret = .ok w →
      w.ty = ret ∧ w.isNull = false ∧ w.isUnknown = false) :
    f.call ctx (cs.map (Value.scalar · ∅)) = .ok v ↔
      f.body ctx (cs.map (Value.scalar · ∅)) ret = .ok v := by
  rw [call_scalars arity taken fixed]
  exact finish_eq_ok_iff typed

theorem call_eq_error {e : CallError}
    (failed : f.body ctx (cs.map (Value.scalar · ∅)) ret = .error e) :
    f.call ctx (cs.map (Value.scalar · ∅)) = .error (f.annotate e) := by
  rw [call_scalars arity taken fixed, failed]
  rfl

end

end MarkedValues.Function
