import MarkedValues.Proofs.Call.MarkFlow
import MarkedValues.Proofs.Ty.Unification

/-!
Calls on arguments that are known less. `Value.Forgets v w` puts an unknown of the same type in the
place of a value. Types decide how far a call gets before its rule is asked, so it gets as far as
before, or ends sooner with an unknown; a rule and a body that bear unknowns do the rest.
-/
namespace MarkedValues

open Outcomes

namespace Value

/-- The value itself, or an unknown of its type with any refinement and marks. -/
inductive Forgets (v : Value) : Value → Prop
  | kept : Forgets v v
  | unknown (r : Bool) (m : MarkSet) : Forgets v (.unknown v.ty r m)

namespace Forgets

variable {v w : Value}

theorem ty (h : Forgets v w) : w.ty = v.ty := by
  cases h <;> rfl

theorem eq_of_known (h : Forgets v w) (known : w.isUnknown = false) : w = v := by
  cases h with
  | kept => rfl
  | unknown r m => cases known

theorem isUnknown (h : Forgets v w) (unknown : v.isUnknown = true) : w.isUnknown = true := by
  cases h with
  | kept => exact unknown
  | unknown r m => rfl

theorem isNull (h : Forgets v w) (null : w.isNull = true) : v.isNull = true := by
  cases h with
  | kept => exact null
  | unknown r m => cases null

theorem strip (h : Forgets v w) (p : Param) : Forgets (p.strip v) (p.strip w) := by
  cases h with
  | kept => exact .kept
  | unknown r m =>
    unfold Param.strip
    split
    · exact .unknown r m
    · have erased : (Value.unknown v.ty r m).erase = .unknown v.erase.ty r ∅ := by
        rw [ty_erase]
        rfl
      rw [erased]
      exact .unknown r ∅

end Forgets

theorem convert_unknown {s t u : Ty} (h : Ty.conversionType s t = some u) (r : Bool) (m : MarkSet) :
    convert (.unknown s r m) t = .ok (.unknown u r m) := by
  by_cases same : t = .dynamic ∨ s = t
  · have eq : u = s := by
      rcases same with rfl | rfl
      · exact (Option.some.inj h).symm
      · rw [Ty.conversionType_self] at h
        exact (Option.some.inj h).symm
    rw [eq]
    exact convert_of_same same
  · rw [convert_of_ne same]
    have source : (Value.unknown s r m).ty = s := rfl
    rw [source, h]
    rfl

theorem conversionType_isSome {v w : Value} {t : Ty} (h : convert v t = .ok w) :
    ∃ u, Ty.conversionType v.ty t = some u := by
  cases converts_of_convert h with
  | same eq =>
    rcases eq with rfl | rfl
    · exact ⟨v.ty, rfl⟩
    · exact ⟨v.ty, Ty.conversionType_self v.ty⟩
  | null hu => exact ⟨_, hu⟩
  | unknown hu => exact ⟨_, hu⟩
  | scalar hu _ => exact ⟨_, hu⟩
  | list hu _ => exact ⟨_, hu⟩
  | set hu _ => exact ⟨_, hu⟩
  | tuple hu _ => exact ⟨_, hu⟩
  | map hu _ => exact ⟨_, hu⟩
  | object hu _ _ => exact ⟨_, hu⟩

/-- Where a value converts, so does an unknown of its type, and to the same type where that is read
    off the target. -/
theorem forgets_convert {v w x : Value} {t : Ty} (tuple : t.isTuple = false)
    (object : t.isObject = false) (forgets : Forgets v w) (h : convert v t = .ok x) :
    ∃ y, convert w t = .ok y ∧ Forgets x y := by
  cases forgets with
  | kept => exact ⟨x, h, .kept⟩
  | unknown r m =>
    have type := conversionType_of_convert tuple object h
    exact ⟨_, convert_unknown type r m, .unknown r m⟩

end Value

namespace Function

open Value (Forgets)

variable {f : Function}

/-- A declared type that fixes the type of what is converted to it. -/
def Plain (t : Ty) : Prop := t.isTuple = false ∧ t.isObject = false ∧ t.Canonical

theorem forgets_receive {p : Param} (plain : Plain p.ty) {a b : Value} {q : Prepared}
    (forgets : Forgets a b) (h : p.Receives a q) :
    ∃ r, p.Receives b r ∧ List.Forall₂ Forgets q.args r.args ∧ r.deferred = q.deferred ∧
      (q.shortCircuit = true → r.shortCircuit = true) := by
  cases h with
  | deferred null dynamic refused =>
    refine ⟨_, .deferred (fun h => null (forgets.isNull h)) (forgets.ty.trans dynamic) refused, ?_,
      rfl, id⟩
    exact .cons (forgets.strip p) .nil
  | @converted w null dynamicType hw =>
    obtain ⟨x, hx, less⟩ := Value.forgets_convert plain.1 plain.2.1 (forgets.strip p) hw
    refine ⟨_, .converted (fun h => null (forgets.isNull h))
      (fun h => dynamicType (forgets.ty ▸ h)) hx, .cons less .nil, rfl, ?_⟩
    simp only [Bool.and_eq_true]
    exact fun short => ⟨less.isUnknown short.1, short.2⟩

namespace Prepares

variable {i : Nat} {args args' : List Value} {q : Prepared}

/-- Where the arguments pass their parameters, so do arguments that are known less. -/
theorem forgets (plain : ∀ i p, f.paramFor i = some p → Plain p.ty) (h : f.Prepares i args q)
    (less : List.Forall₂ Forgets args args') :
    ∃ r, f.Prepares i args' r ∧ List.Forall₂ Forgets q.args r.args ∧ r.deferred = q.deferred ∧
      (q.shortCircuit = true → r.shortCircuit = true) := by
  induction h generalizing args' with
  | nil i =>
    cases less
    exact ⟨_, .nil i, .nil, rfl, id⟩
  | @cons i p a rest q₁ q₂ hp hq _ ih =>
    cases less with
    | cons first later =>
      obtain ⟨r₁, hr₁, seen₁, deferred₁, short₁⟩ := forgets_receive (plain i p hp) first hq
      obtain ⟨r₂, hr₂, seen₂, deferred₂, short₂⟩ := ih later
      refine ⟨_, .cons hp hr₁ hr₂, List.rel_append seen₁ seen₂, ?_, ?_⟩
      · simp only [Prepared.append, deferred₁, deferred₂]
      · simp only [Prepared.append, Bool.or_eq_true]
        exact fun short => short.imp short₁ short₂

theorem known (h : f.Prepares i args q) (settled : q.deferred = false)
    (complete : q.shortCircuit = false) {j : Nat} {w : Value}
    (strict : ∀ p, f.paramFor (i + j) = some p → p.allow.unknown = false)
    (hw : q.args[j]? = some w) : w.isUnknown = false := by
  induction h generalizing j with
  | nil i => cases hw
  | @cons i p a rest q r hp hq _ ih =>
    simp only [Prepared.append, Bool.or_eq_false_iff] at settled complete hw
    cases hq with
    | deferred _ _ _ => simp at settled
    | @converted v _ _ _ =>
      cases j with
      | zero =>
        simp only [List.cons_append, List.getElem?_cons_zero, Option.some.injEq] at hw
        subst hw
        simpa [strict p hp] using complete.1
      | succ j =>
        refine ih settled.2 complete.2 (fun p' hp' => strict p' ?_) (by simpa using hw)
        rwa [← Nat.add_assoc, Nat.add_right_comm]

theorem canonical (plain : ∀ i p, f.paramFor i = some p → Plain p.ty) (h : f.Prepares i args q)
    (types : ∀ a ∈ args, a.ty.Canonical) : ∀ w ∈ q.args, w.ty.Canonical := by
  induction h with
  | nil i => simp [Prepared.nothing]
  | @cons i p a rest q r hp hq _ ih =>
    intro w hw
    rcases List.mem_append.1 hw with hw | hw
    · have here : (p.strip a).ty.Canonical := by
        rw [Param.ty_strip]
        exact types a (by simp)
      cases hq with
      | deferred _ _ _ =>
        cases List.mem_singleton.1 hw
        exact here
      | converted _ _ hconv =>
        cases List.mem_singleton.1 hw
        obtain ⟨tuple, object, declared⟩ := plain i p hp
        exact Ty.canonical_conversionType here declared
          (Value.conversionType_of_convert tuple object hconv)
    · exact ih (fun b hb => types b (by simp [hb])) w hw

end Prepares

/-- Unknowns in the place of arguments do not make a call fail: the rule then finds a type all the
    same, and the body has a result where it is run at all. -/
structure BearsUnknown (f : Function) : Prop where
  plain : ∀ i p, f.paramFor i = some p → Plain p.ty
  resolves : ∀ {seen seen' : List Value} {ret : Ty}, List.Forall₂ Forgets seen seen' →
    f.resolveType seen = .ok ret → ∃ ret', f.resolveType seen' = .ok ret'
  runs : ∀ {ctx : Context} {seen seen' : List Value} {ret ret' : Ty} {v : Value},
    (∀ a ∈ seen, a.ty.Canonical) → List.Forall₂ Forgets seen seen' →
    (∀ i : Nat, (∀ p, f.paramFor i = some p → p.allow.unknown = false) →
      seen'[i]? = seen[i]?) →
    f.resolveType seen = .ok ret → f.resolveType seen' = .ok ret' →
    f.finish ret ∅ (f.body ctx seen ret) = .ok v →
    ∃ w, f.finish ret' ∅ (f.body ctx seen' ret') = .ok w

theorem getElem?_of_known {seen seen' : List Value} (less : List.Forall₂ Forgets seen seen')
    {i : Nat} (known : ∀ w, seen'[i]? = some w → w.isUnknown = false) : seen'[i]? = seen[i]? := by
  induction less generalizing i with
  | nil => rfl
  | cons first _ ih =>
    cases i with
    | zero => exact congrArg some (first.eq_of_known (known _ rfl))
    | succ i => exact ih known

theorem prepare_forgets (plain : ∀ i p, f.paramFor i = some p → Plain p.ty)
    {args args' : List Value} {q : Prepared} (less : List.Forall₂ Forgets args args')
    (h : f.prepare args = .ok q) :
    ∃ r, f.prepare args' = .ok r ∧ f.Prepares 0 args' r ∧ List.Forall₂ Forgets q.args r.args ∧
      r.deferred = q.deferred ∧ (q.shortCircuit = true → r.shortCircuit = true) := by
  obtain ⟨r, hr, seen, deferred, short⟩ := (prepares_of_prepare h).forgets plain less
  refine ⟨r, ?_, hr, seen, deferred, short⟩
  unfold prepare at h ⊢
  rw [← less.length_eq]
  split at h
  · contradiction
  · exact prepareFrom_of_prepares hr

/-- Where a call succeeds, it does so with unknowns of the same types in the place of
    any of its arguments. -/
theorem call_forgets (bears : f.BearsUnknown) {ctx : Context} {args args' : List Value} {v : Value}
    (types : ∀ a ∈ args, a.ty.Canonical) (less : List.Forall₂ Forgets args args')
    (h : f.call ctx args = .ok v) : ∃ w, f.call ctx args' = .ok w := by
  cases hq : f.prepare args with
  | error e =>
    rw [call_eq, Function.plan, hq] at h
    cases h
  | ok q =>
    obtain ⟨r, hr, prepares, seen, deferred, short⟩ := prepare_forgets bears.plain less hq
    rw [call_of_prepare hq] at h
    rw [call_of_prepare hr, deferred]
    by_cases waits : q.deferred = true
    · rw [if_pos waits]
      exact ⟨_, rfl⟩
    · rw [if_neg waits] at h ⊢
      obtain ⟨ret, hret, h⟩ := bind_eq_ok.1 h
      obtain ⟨ret', hret'⟩ := bears.resolves seen hret
      rw [hret']
      simp only [bind, Except.bind]
      by_cases cut : r.shortCircuit = true
      · rw [if_pos cut]
        exact ⟨_, rfl⟩
      · rw [if_neg fun whole => cut (short whole), finish_marks] at h
        rw [if_neg cut, finish_marks]
        have settled : r.deferred = false := by simpa [deferred] using waits
        have complete : r.shortCircuit = false := by simpa using cut
        -- The body is run, so what it may not see unknown is known and was known before.
        have agree : ∀ i : Nat, (∀ p, f.paramFor i = some p → p.allow.unknown = false) →
            r.args[i]? = q.args[i]? := by
          intro i strict
          refine getElem?_of_known seen fun w hw => ?_
          exact prepares.known settled complete (by rwa [Nat.zero_add]) hw
        have canonical := (prepares_of_prepare hq).canonical bears.plain types
        cases hu : f.finish ret ∅ (f.body ctx q.args ret) with
        | error e =>
          rw [hu] at h
          cases h
        | ok u =>
          obtain ⟨w, hw⟩ := bears.runs canonical seen agree hret hret' hu
          rw [hw]
          exact ⟨_, rfl⟩

theorem bearsUnknown_of_strict (plain : ∀ i p, f.paramFor i = some p → Plain p.ty)
    (strict : ∀ i p, f.paramFor i = some p → p.allow.unknown = false)
    (resolves : ∀ {seen seen' : List Value} {ret : Ty}, List.Forall₂ Forgets seen seen' →
      f.resolveType seen = .ok ret → ∃ ret', f.resolveType seen' = .ok ret') : f.BearsUnknown where
  plain := plain
  resolves := resolves
  runs := by
    intro ctx seen seen' ret ret' v _ _ agree hret hret' hv
    have same : seen' = seen := List.ext_getElem? fun i => agree i (strict i)
    subst same
    rw [hret] at hret'
    cases hret'
    exact ⟨v, hv⟩

end Function

end MarkedValues
