import MarkedValues.Proofs.Call.Contract
import MarkedValues.Proofs.Call.Forgetting
import MarkedValues.Proofs.Value.Knowledge

/-!
Calls before and after the unknowns in their arguments are resolved. A rule that is asked again
later sees arguments of the same types, and the same arguments where they were wholly known already;
what else it may rely on hangs on its parameters.
-/
namespace MarkedValues

open Outcomes

/-- What a rule sees of one argument, before and after. -/
structure Resolved (w w' : Value) : Prop where
  ty : w'.ty = w.ty
  built : w.WellFormed
  kept : w.isWhollyKnown = true → w' = w

theorem Function.plain_of_isNameless {t : Ty} (h : t.isNameless = true) : Plain t := by
  have part : ∀ e : Ty, (e.isPrimitive || e.isDynamic) = true → e.Canonical := by
    intro e he
    cases e <;> trivial
  cases t with
  | string | number | bool | dynamic => exact ⟨rfl, rfl, trivial⟩
  | list e | set e | map e => exact ⟨rfl, rfl, part e h⟩
  | tuple ts => cases h
  | object attrs => cases h

namespace Value

theorem isWhollyKnown_or_isUnknown_of_dynamic {v : Value} (open_ : v.ty = .dynamic) :
    v.isWhollyKnown = true ∨ v.isUnknown = true := by
  cases v with
  | null t m => exact .inl rfl
  | unknown t r m => exact .inr rfl
  | scalar s m => exact .inl rfl
  | sequence k es m => cases k <;> cases open_
  | mapping k es m => cases k <;> cases open_

theorem resolved_of_convert {t : Ty} (nameless : t.isNameless = true) {v v' w w' : Value}
    (wf : v.WellFormed) (canonical : v.Canonical) (completed : Completes SameType v v')
    (h : convert v t = .ok w) (h' : convert v' t = .ok w') : Resolved w w' := by
  have target := Function.plain_of_isNameless nameless
  have types : v'.ty = v.ty := completed.ty fun _ _ _ fit => fit
  refine ⟨?_, wf.convert target.2.2 h, fun whole => ?_⟩
  · have before := conversionType_of_convert target.1 target.2.1 h
    have after := conversionType_of_convert target.1 target.2.1 h'
    rw [types, before] at after
    exact (Option.some.inj after).symm
  · have known : v.isWhollyKnown = true := by
      by_cases open_ : v.ty = .dynamic
      · refine (isWhollyKnown_or_isUnknown_of_dynamic open_).resolve_right fun unknown => ?_
        rw [← isUnknown_convert h, Completes.isUnknown_of_isWhollyKnown whole] at unknown
        cases unknown
      · obtain ⟨u, hu⟩ := conversionType_isSome h
        exact isWhollyKnown_of_convert wf target.2.2 (Ty.keeps_of_isNameless nameless open_ hu) h whole
    rw [completed.eq_of_isWhollyKnown canonical known, h] at h'
    exact (Except.ok.inj h').symm

end Value

namespace Function

open Value (SameType)
open Prepares (SomeArgument)

variable {f : Function} {args args' : List Value} {q q' : Prepared}

structure Resolves (f : Function) (seen seen' : List Value) : Prop where
  places : List.Forall₂ Resolved seen seen'
  typed : ∀ i w p, seen[i]? = some w → f.paramFor i = some p → Ty.Matches w.ty p.ty
  /-- Parameters that take every type hand the arguments over as they are. -/
  open_ : f.everyParam (·.ty.isDynamic) = true → List.Forall₂ (Value.Completes SameType) seen seen'

theorem Resolves.types {seen seen' : List Value} (h : f.Resolves seen seen') :
    seen'.map Value.ty = seen.map Value.ty :=
  (Lists.map_eq_of_forall₂
    (Lists.forall₂_imp_left (fun _ _ _ resolved => resolved.ty.symm) h.places)).symm

namespace Prepares

theorem someArgument_imp {R : Value → Value → Prop} {kind kind' : Value → Param → Prop}
    (rel : List.Forall₂ R args args') (imp : ∀ a a' p, R a a' → kind a p → kind' a' p)
    (h : SomeArgument f 0 args kind) : SomeArgument f 0 args' kind' := by
  obtain ⟨j, a, p, ha, hp, hk⟩ := h
  obtain ⟨a', ha', hR⟩ := Lists.forall₂_getElem? rel ha
  exact ⟨j, a', p, ha', hp, imp a a' p hR hk⟩

theorem agrees (h : f.Prepares 0 args q) (settled : q.deferred = false) {i : Nat} {a w : Value}
    (ha : args[i]? = some a) (hw : q.args[i]? = some w) :
    w.isUnknown = a.isUnknown ∧ w.isNull = a.isNull ∧
      ∀ p, f.paramFor i = some p → p.ty = .dynamic → w = p.strip a := by
  obtain ⟨p, hp, _, _, hconv⟩ := h.converted settled ha hw
  rw [Nat.zero_add] at hp
  refine ⟨?_, ?_, fun p' hp' open_ => ?_⟩
  · rw [Value.isUnknown_convert hconv, Param.isUnknown_strip]
  · rw [Value.isNull_convert hconv, Param.isNull_strip]
  · rw [hp] at hp'
    cases hp'
    rw [Value.convert_of_same (.inl open_)] at hconv
    exact (Except.ok.inj hconv).symm

theorem place_cases (h : f.Prepares 0 args q) (i : Nat) :
    args[i]? = none ∧ q.args[i]? = none ∨ ∃ a w, args[i]? = some a ∧ q.args[i]? = some w := by
  by_cases inside : i < args.length
  · have seen : i < q.args.length := h.length_eq ▸ inside
    exact .inr ⟨args[i], q.args[i], List.getElem?_eq_getElem inside, List.getElem?_eq_getElem seen⟩
  · have outside := Nat.le_of_not_lt inside
    exact .inl ⟨List.getElem?_eq_none outside, List.getElem?_eq_none (h.length_eq ▸ outside)⟩

theorem known_of_strict (strict : f.everyParam (fun p => !p.allow.unknown) = true)
    (h : f.Prepares 0 args q) (settled : q.deferred = false) (complete : q.shortCircuit = false) :
    ∀ a ∈ args, a.isUnknown = false := by
  intro a mem
  obtain ⟨i, ha⟩ := List.mem_iff_getElem?.1 mem
  rcases h.place_cases i with ⟨none, _⟩ | ⟨b, w, hb, hw⟩
  · cases none.symm.trans ha
  · cases hb.symm.trans ha
    obtain ⟨p, hp, _, _, _⟩ := h.converted settled ha hw
    rw [Nat.zero_add] at hp
    have refuses : p.allow.unknown = false := by simpa using check_of_everyParam strict hp
    by_contra unknown
    rw [Bool.not_eq_false] at unknown
    have short := (h.shortCircuit_iff settled).2
      ⟨i, a, p, ha, by rwa [Nat.zero_add], unknown, refuses⟩
    rw [complete] at short
    cases short

theorem getElem?_of_fixed (h : f.Prepares 0 args q) (settled : q.deferred = false) {i : Nat}
    {a : Value} {p : Param} (ha : args[i]? = some a) (hp : f.paramFor i = some p)
    (plain : p.allow.marked = false) (fixed : Value.convert a.erase p.ty = .ok a.erase) :
    q.args[i]? = some a.erase := by
  rcases h.place_cases i with ⟨none, _⟩ | ⟨b, w, hb, hw⟩
  · cases none.symm.trans ha
  · cases hb.symm.trans ha
    obtain ⟨p', hp', _, _, hconv⟩ := h.converted settled ha hw
    rw [Nat.zero_add, hp] at hp'
    cases hp'
    have stripped : p.strip a = a.erase := by
      rw [Param.strip, plain]
      rfl
    rw [stripped, fixed] at hconv
    rw [hw, ← Except.ok.inj hconv]

/-- Parameters that take every type and no marks hand the arguments over without their marks. -/
theorem args_eq_erase (any : f.everyParam (·.ty.isDynamic) = true)
    (plain : f.everyParam (fun p => !p.allow.marked) = true) (h : f.Prepares 0 args q)
    (settled : q.deferred = false) : q.args = args.map Value.erase := by
  refine List.ext_getElem? fun i => ?_
  rw [List.getElem?_map]
  rcases h.place_cases i with ⟨ha, hw⟩ | ⟨a, w, ha, hw⟩
  · rw [ha, hw]
    rfl
  · obtain ⟨p, hp, _, _, _⟩ := h.converted settled ha hw
    rw [Nat.zero_add] at hp
    have open_ : p.ty = .dynamic := Ty.isDynamic_iff.1 (check_of_everyParam any hp)
    have unmarked : p.allow.marked = false := by simpa using check_of_everyParam plain hp
    rw [ha]
    exact h.getElem?_of_fixed settled ha hp unmarked (Value.convert_of_same (.inl open_))

theorem getElem?_ty (h : f.Prepares 0 args q) (settled : q.deferred = false) {i : Nat} {p : Param}
    (hp : f.paramFor i = some p) (any : p.ty = .dynamic) :
    q.args[i]?.map Value.ty = args[i]?.map Value.ty := by
  rcases h.place_cases i with ⟨ha, hw⟩ | ⟨a, w, ha, hw⟩
  · rw [ha, hw]
  · rw [ha, hw, (h.agrees settled ha hw).2.2 p hp any, Option.map_some, Param.ty_strip]
    rfl

end Prepares

theorem completes_strip (p : Param) {a a' : Value} (h : Value.Completes SameType a a') :
    Value.Completes SameType (p.strip a) (p.strip a') := by
  unfold Param.strip
  split
  · exact h
  · exact h.erase fun t m w fit => (Value.ty_erase w).trans fit

theorem strip_built (p : Param) {a : Value} (wf : a.WellFormed) (canonical : a.Canonical) :
    (p.strip a).WellFormed ∧ (p.strip a).Canonical := by
  unfold Param.strip
  split
  · exact ⟨wf, canonical⟩
  · exact ⟨wf.erase, canonical.erase⟩

section

variable (completed : List.Forall₂ (Value.Completes SameType) args args')

include completed

theorem resolves_of_prepares (nameless : f.everyParam (·.ty.isNameless) = true)
    (built : ∀ a ∈ args, a.WellFormed) (canonical : ∀ a ∈ args, a.Canonical)
    (h : f.Prepares 0 args q) (h' : f.Prepares 0 args' q') (settled : q.deferred = false)
    (settled' : q'.deferred = false) : f.Resolves q.args q'.args := by
  have len : q.args.length = q'.args.length := by
    rw [h.length_eq, h'.length_eq, completed.length_eq]
  have origin : ∀ (i : Nat) (w : Value), q.args[i]? = some w → ∃ a, args[i]? = some a := by
    intro i w hw
    rcases h.place_cases i with ⟨_, none⟩ | ⟨a, _, ha, _⟩
    · cases none.symm.trans hw
    · exact ⟨a, ha⟩
  refine ⟨Lists.forall₂_of_getElem? len fun i w w' hw hw' => ?_, fun i w p hw hp => ?_, fun open_ => ?_⟩
  · obtain ⟨a, ha⟩ := origin i w hw
    obtain ⟨a', ha', hc⟩ := Lists.forall₂_getElem? completed ha
    obtain ⟨p, hp, _, _, hconv⟩ := h.converted settled ha hw
    obtain ⟨p', hp', _, _, hconv'⟩ := h'.converted settled' ha' hw'
    cases hp.symm.trans hp'
    have mem := List.mem_of_getElem? ha
    have stripped := strip_built p (built a mem) (canonical a mem)
    exact Value.resolved_of_convert (check_of_everyParam nameless hp) stripped.1 stripped.2
      (completes_strip p hc) hconv hconv'
  · obtain ⟨a, ha⟩ := origin i w hw
    obtain ⟨p', hp', _, _, hconv⟩ := h.converted settled ha hw
    rw [Nat.zero_add, hp] at hp'
    cases hp'
    have target := plain_of_isNameless (check_of_everyParam nameless hp)
    exact Value.matches_convert (Ty.Matches.refl p.ty) target.2.2 hconv
  · refine Lists.forall₂_of_getElem? len fun i w w' hw hw' => ?_
    obtain ⟨a, ha⟩ := origin i w hw
    obtain ⟨a', ha', hc⟩ := Lists.forall₂_getElem? completed ha
    obtain ⟨p, hp, _, _, _⟩ := h.converted settled ha hw
    rw [Nat.zero_add] at hp
    have any : p.ty = .dynamic := Ty.isDynamic_iff.1 (check_of_everyParam open_ hp)
    rw [(h.agrees settled ha hw).2.2 p hp any, (h'.agrees settled' ha' hw').2.2 p hp any]
    exact completes_strip p hc

theorem deferred_eq (h : f.Prepares 0 args q) (h' : f.Prepares 0 args' q') :
    q'.deferred = q.deferred := by
  have types : List.Forall₂ (fun a a' : Value => a'.ty = a.ty) args args' :=
    Lists.forall₂_imp_left (fun _ _ _ hc => hc.ty fun _ _ _ fit => fit) completed
  rw [Bool.eq_iff_iff, h.deferred_iff, h'.deferred_iff]
  constructor
  · exact Prepares.someArgument_imp types.flip fun a a' p same kind => ⟨same.symm.trans kind.1, kind.2⟩
  · exact Prepares.someArgument_imp types fun a a' p same kind => ⟨same.trans kind.1, kind.2⟩

/-- A call that had to wait promised nothing; any other asks its rule before and after. -/
theorem returnType_completes {t t' : Ty} (h : f.returnType args = .ok t)
    (h' : f.returnType args' = .ok t') :
    t = .dynamic ∨ ∃ q q', (f.Prepares 0 args q ∧ q.deferred = false ∧ f.resolveType q.args = .ok t) ∧
      f.Prepares 0 args' q' ∧ q'.deferred = false ∧ f.resolveType q'.args = .ok t' := by
  obtain ⟨q, hq, h⟩ := bind_eq_ok.1 h
  obtain ⟨q', hq', h'⟩ := bind_eq_ok.1 h'
  have prepares := prepares_of_prepare hq
  have prepares' := prepares_of_prepare hq'
  have waits := deferred_eq completed prepares prepares'
  cases settled : q.deferred with
  | true =>
    rw [if_pos settled] at h
    exact .inl (Except.ok.inj h).symm
  | false =>
    rw [settled] at waits
    rw [if_neg (by simp [settled])] at h
    rw [if_neg (by simp [waits])] at h'
    exact .inr ⟨q, q', ⟨prepares, settled, h⟩, prepares', waits, h'⟩

end

theorem run_of_known {ctx : Context} {v : Value} (h : f.call ctx args = .ok v)
    (known : v.isUnknown = false) :
    ∃ q ret, f.arityFault? args.length = none ∧ f.Prepares 0 args q ∧ q.deferred = false ∧
      q.shortCircuit = false ∧ f.resolveType q.args = .ok ret ∧
      f.finish ret q.marks (f.body ctx q.args ret) = .ok v := by
  have planned := f.planned args
  rw [call_eq] at h
  generalize hplan : f.plan args = plan at planned h
  generalize f.returnType args = promised at planned
  cases planned with
  | failed e => cases h
  | deferred _ _ =>
    cases h
    cases known
  | unknown _ _ _ _ =>
    cases h
    rw [unknownResult_withMarks] at known
    cases known
  | @run q ret prepares settled rule complete =>
    refine ⟨q, ret, ?_, prepares, settled, complete, rule, h⟩
    cases arity : f.arityFault? args.length with
    | none => rfl
    | some fault =>
      rw [Function.plan, prepare, arity] at hplan
      cases hplan

section

open Value (SameTypeAndMarks)

variable {i : Nat} (strict : f.everyParam (fun p => !p.allow.unknown) = true)
  (completed : List.Forall₂ (Value.Completes SameTypeAndMarks) args args')

include strict completed

theorem Prepares.completes (h : f.Prepares i args q) (settled : q.deferred = false)
    (complete : q.shortCircuit = false)
    (converts : ∀ (j : Nat) (a' : Value) (p : Param), args'[j]? = some a' →
      f.paramFor (i + j) = some p → ∃ w, Value.convert (p.strip a') p.ty = .ok w) :
    ∃ q', f.Prepares i args' q' ∧ q'.marks = q.marks ∧ q'.deferred = false ∧
      q'.shortCircuit = false := by
  induction h generalizing args' with
  | nil i =>
    cases completed
    exact ⟨.nothing, .nil i, rfl, rfl, rfl⟩
  | @cons i p a rest q r hp hq _ ih =>
    cases completed with
    | @cons _ a' _ rest' first later =>
      simp only [Prepared.append, Bool.or_eq_false_iff] at settled complete
      obtain ⟨q', hq', marks, settled', complete'⟩ := ih later settled.2 complete.2
        fun j b p hb hp => converts (j + 1) b p hb (by rwa [← Nat.add_assoc, Nat.add_right_comm])
      obtain ⟨w', hw'⟩ := converts 0 a' p rfl hp
      cases hq with
      | deferred _ _ _ => cases settled.1
      | @converted w null dynamicType hw =>
        have refuses : p.allow.unknown = false := by simpa using check_of_everyParam strict hp
        have known : a.isUnknown = false := by
          rw [refuses, Bool.not_false, Bool.and_true, Value.isUnknown_convert hw,
            Param.isUnknown_strip] at complete
          exact complete.1
        have type : a'.ty = a.ty := first.ty fun _ _ _ fit => fit.1
        have taken : p.taken a' = p.taken a := by
          rw [Param.taken, Param.taken, first.allMarks fun _ _ _ fit => fit.2]
        have state : w'.isUnknown = false := by
          rw [Value.isUnknown_convert hw', Param.isUnknown_strip]
          exact first.isUnknown
        refine ⟨_, .cons hp (.converted (fun h => null ?_) (fun h => dynamicType (type ▸ h)) hw') hq',
          ?_, ?_, ?_⟩
        · rwa [first.isNull known] at h
        · simp only [Prepared.append, taken, marks]
        · simp only [Prepared.append, settled', Bool.or_false]
        · simp only [Prepared.append, state, complete', Bool.false_and, Bool.or_false]

theorem call_of_completes (ctx : Context) (arity : f.arityFault? args.length = none)
    (h : f.Prepares 0 args q) (settled : q.deferred = false) (complete : q.shortCircuit = false)
    (converts : ∀ (j : Nat) (a' : Value) (p : Param), args'[j]? = some a' →
      f.paramFor j = some p → ∃ w, Value.convert (p.strip a') p.ty = .ok w) :
    ∃ q', f.Prepares 0 args' q' ∧ q'.deferred = false ∧
      f.call ctx args' = f.resolveType q'.args >>= fun ret =>
        f.finish ret q.marks (f.body ctx q'.args ret) := by
  obtain ⟨q', hq', marks, settled', complete'⟩ := h.completes strict completed settled complete
    fun j a' p ha hp => converts j a' p ha (Nat.zero_add j ▸ hp)
  have prepared : f.prepare args' = .ok q' := by
    rw [prepare, ← completed.length_eq, arity]
    exact prepareFrom_of_prepares hq'
  refine ⟨q', hq', settled', ?_⟩
  rw [call_of_prepare prepared, settled', complete', marks]
  rfl

/-- A call gives the same known result again if its rule and its body do. -/
theorem call_stands {ctx : Context} {v : Value} (h : f.call ctx args = .ok v)
    (known : v.isUnknown = false)
    (converts : ∀ (j : Nat) (a' : Value) (p : Param), args'[j]? = some a' →
      f.paramFor j = some p → ∃ w, Value.convert (p.strip a') p.ty = .ok w)
    (stands : ∀ q q', f.Prepares 0 args q → f.Prepares 0 args' q' → q.deferred = false →
      q'.deferred = false → q.shortCircuit = false → f.resolveType q'.args = f.resolveType q.args ∧
        ∀ ret w, f.body ctx q.args ret = .ok w → w.isUnknown = false →
          f.body ctx q'.args ret = .ok w) :
    f.call ctx args' = .ok v := by
  obtain ⟨q, ret, arity, prepares, settled, complete, rule, ran⟩ := run_of_known h known
  obtain ⟨q', prepares', settled', again⟩ :=
    call_of_completes strict completed ctx arity prepares settled complete converts
  obtain ⟨rules, bodies⟩ := stands q q' prepares prepares' settled settled' complete
  obtain ⟨w, u, hw, hu, rfl⟩ := finish_eq_ok ran
  have body : w.isUnknown = false := by
    obtain ⟨_, x, hx, rfl⟩ := conform_eq_ok hu
    rw [← Value.isUnknown_convert hx, ← known, Value.isUnknown_withMarks]
    split
    · exact (isUnknown_refineNotNull x).symm
    · rfl
  rw [again, rules, rule, ← ran, hw]
  change f.finish ret q.marks (f.body ctx q'.args ret) = _
  rw [bodies ret w hw body]

end

end Function

end MarkedValues
