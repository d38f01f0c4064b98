import MarkedValues.Proofs.Call.Soundness

/-!
Whom a failed call blames. A rule or a body leaves the naming of parameters to the call and may
blame any argument that is there; `StaysWithin` says that it blames no other. Preparing the
arguments names place and parameter by itself, so then every error of the call is `Located`.
-/
namespace MarkedValues

open Outcomes

namespace CallError

/-- Blames one of the first `n` arguments or none, and names no parameter. -/
structure Within (n : Nat) (e : CallError) : Prop where
  unnamed : e.parameter? = none
  inside : ∀ i, e.argument? = some i → i < n

variable {n : Nat} {e : CallError}

@[simp] theorem within_ofFault (fault : CallFault) : Within n (.ofFault fault) := ⟨rfl, nofun⟩

@[simp] theorem within_ofMessage (message : String) : Within n (.ofMessage message) :=
  within_ofFault _

@[simp] theorem within_ofConversion (e : ConversionError) : Within n (.ofConversion e) :=
  within_ofMessage _

theorem within_at {fault : CallFault} {i : Nat} (hi : i < n) : Within n ⟨fault, some i, none⟩ := by
  constructor
  · rfl
  · intro j hj
    cases hj
    exact hi

theorem Within.atArgument (h : e.Within n) {i : Nat} (hi : i < n) : (e.atArgument i).Within n := by
  constructor
  · exact h.unnamed
  · intro j hj
    rcases Option.or_eq_some_iff.1 hj with hj | ⟨_, hj⟩
    · exact h.inside j hj
    · cases hj
      exact hi

end CallError

open CallError (Within)

theorem fails_blame {α : Type} {n i : Nat} (message : String) (hi : i < n) :
    Fails (Within n) (blame i message : Outcome α) :=
  fails_error.2 (CallError.within_at hi)

theorem fails_check {α : Type} {n i : Nat} {c : Prop} {_ : Decidable c} {x : Outcome α}
    {message : String} (hi : i < n) (rest : ¬ c → Fails (Within n) x) :
    Fails (Within n) (if c then blame i message else x) :=
  fails_ite (fun _ => fails_blame message hi) rest

namespace Function

variable {f : Function} {n : Nat} {e : CallError}

/-- Points at one of `n` arguments and names the parameter that takes it, or does neither. -/
structure Located (f : Function) (n : Nat) (e : CallError) : Prop where
  placed : ∀ i, e.argument? = some i →
    i < n ∧ ∃ p, f.paramFor i = some p ∧ e.parameter? = some p.name
  unplaced : e.argument? = none → e.parameter? = none

theorem located_ofFault (f : Function) (n : Nat) (fault : CallFault) :
    f.Located n (.ofFault fault) :=
  ⟨nofun, fun _ => rfl⟩

theorem located_at {i : Nat} {p : Param} (hi : i < n) (hp : f.paramFor i = some p)
    (fault : CallFault) : f.Located n ⟨fault, some i, some p.name⟩ := by
  constructor
  · intro j hj
    cases hj
    exact ⟨hi, p, hp, rfl⟩
  · exact nofun

/-- Every argument that is there has a parameter to be named. -/
theorem located_annotate (arity : f.arityFault? n = none) (h : e.Within n) :
    f.Located n (f.annotate e) := by
  obtain ⟨fault, place, name⟩ := e
  have unnamed : name = none := h.unnamed
  subst unnamed
  cases place with
  | none => exact located_ofFault f n fault
  | some i =>
    have inside : i < n := h.inside i rfl
    obtain ⟨p, hp⟩ := exists_paramFor arity inside
    have named : f.annotate ⟨fault, some i, none⟩ = ⟨fault, some i, some p.name⟩ := by
      simp [annotate, hp, CallError.atParameter]
    rw [named]
    exact located_at inside hp fault

theorem fails_receive {p : Param} {i : Nat} (hi : i < n) (hp : f.paramFor i = some p) (a : Value) :
    Fails (f.Located n) (p.receive i a) := by
  rw [Param.receive_eq]
  apply fails_ite
  · intro null
    exact fails_error.2 (located_at hi hp _)
  · intro present
    apply fails_ite
    · intro waits
      exact fails_ok
    · intro settled
      split
      · exact fails_error.2 (located_at hi hp _)
      · exact fails_ok

theorem fails_prepareFrom {i : Nat} {args : List Value} (fits : i + args.length ≤ n) :
    Fails (f.Located n) (f.prepareFrom i args) := by
  induction args generalizing i with
  | nil => exact fails_ok
  | cons a rest ih =>
    rw [List.length_cons] at fits
    rw [prepareFrom]
    split
    · exact fails_error.2 (located_ofFault f n _)
    · next p hp =>
      apply (fails_receive (by omega) hp a).bind
      intro first _
      apply (ih (by omega)).bind
      intro others _
      exact fails_ok

theorem fails_prepare (f : Function) (args : List Value) :
    Fails (f.Located args.length) (f.prepare args) := by
  unfold prepare
  split
  · exact fails_error.2 (located_ofFault f _ _)
  · exact fails_prepareFrom (by omega)

/-- Neither the rule nor the body blames an argument that is not there. -/
structure StaysWithin (f : Function) (seen : List Value) : Prop where
  rule : ∀ resolve, f.rule = .resolved resolve → Fails (Within seen.length) (resolve seen)
  body : ∀ ctx ret, Fails (Within seen.length) (f.body ctx seen ret)

theorem fails_annotate {α : Type} {x : Outcome α} (arity : f.arityFault? n = none)
    (h : Fails (Within n) x) : Fails (f.Located n) (x.mapError f.annotate) :=
  h.mapError fun _ => located_annotate arity

theorem StaysWithin.resolveType {seen : List Value} (h : f.StaysWithin seen)
    (arity : f.arityFault? seen.length = none) :
    Fails (f.Located seen.length) (f.resolveType seen) := by
  unfold Function.resolveType
  split
  · exact fails_ok
  · next resolve rule => exact fails_annotate arity (h.rule resolve rule)

theorem fails_conform (f : Function) (n : Nat) (result : Value) (ret : Ty) :
    Fails (f.Located n) (f.conform result ret) := by
  unfold conform
  apply fails_ite
  · intro null
    exact fails_error.2 (located_ofFault f n _)
  · intro present
    split
    · exact fails_error.2 (located_ofFault f n _)
    · exact fails_ok

/-- Where rule and body stay within the arguments that they are handed, so does the call. -/
theorem fails_call (f : Function) (ctx : Context) {args : List Value}
    (within : ∀ q, f.prepare args = .ok q → q.deferred = false → f.StaysWithin q.args) :
    Fails (f.Located args.length) (f.call ctx args) := by
  cases hq : f.prepare args with
  | error e =>
    have failed : f.call ctx args = .error e := by
      rw [call_eq, Function.plan, hq]
      rfl
    rw [failed, fails_error]
    exact fails_iff.1 (fails_prepare f args) e hq
  | ok q =>
    have arity := arityFault?_of_prepare hq
    rw [call_of_prepare hq]
    apply fails_ite
    · intro waits
      exact fails_ok
    · intro settled
      have stays := within q hq (by simpa using settled)
      rw [← (prepares_of_prepare hq).length_eq] at arity ⊢
      apply (stays.resolveType arity).bind
      intro ret _
      apply fails_ite
      · intro short
        exact fails_ok
      · intro complete
        apply (fails_annotate arity (stays.body ctx ret)).bind
        intro result _
        apply (fails_conform f _ result ret).bind
        intro v _
        exact fails_ok

end Function

end MarkedValues
