import MarkedValues.Call.Plan
import MarkedValues.Proofs.Value.Erasure

/-!
What applying the parameters to the arguments comes to. `Param.Receives` lists how one argument can
pass, `Function.Prepares` follows the arguments from left to right, and `Function.Planned` says what
is left to do afterwards. All laws of a call are read off these three.
-/
namespace MarkedValues

open Outcomes

namespace Param

def strip (p : Param) (a : Value) : Value := if p.allow.marked then a else a.erase

def taken (p : Param) (a : Value) : MarkSet := if p.allow.marked then ∅ else a.allMarks

@[simp] theorem ty_strip (p : Param) (a : Value) : (p.strip a).ty = a.ty := by
  unfold strip
  split <;> simp

@[simp] theorem isNull_strip (p : Param) (a : Value) : (p.strip a).isNull = a.isNull := by
  unfold strip
  split <;> simp

@[simp] theorem isUnknown_strip (p : Param) (a : Value) :
    (p.strip a).isUnknown = a.isUnknown := by
  unfold strip
  split <;> simp

/-- The ways in which an argument passes its parameter. -/
inductive Receives (p : Param) (a : Value) : Prepared → Prop
  | deferred : (a.isNull → p.allow.null) → a.ty = .dynamic → p.allow.dynamicType = false →
    Receives p a ⟨[p.strip a], p.taken a, false, true⟩
  | converted {w : Value} : (a.isNull → p.allow.null) →
    (a.ty = .dynamic → p.allow.dynamicType) → Value.convert (p.strip a) p.ty = .ok w →
    Receives p a ⟨[w], p.taken a, w.isUnknown && !p.allow.unknown, false⟩

theorem receive_eq (p : Param) (i : Nat) (a : Value) :
    p.receive i a =
      if a.isNull && !p.allow.null then
        .error ((CallError.mustNotBeNull.atArgument i).atParameter p.name)
      else if a.ty.isDynamic && !p.allow.dynamicType then
        .ok ⟨[p.strip a], p.taken a, false, true⟩
      else match Value.convert (p.strip a) p.ty with
      | .error e => .error (((CallError.ofConversion e).atArgument i).atParameter p.name)
      | .ok v => .ok ⟨[v], p.taken a, v.isUnknown && !p.allow.unknown, false⟩ := by
  rw [← ty_strip p a]
  rfl

theorem receives_of_receive {p : Param} {i : Nat} {a : Value} {q : Prepared}
    (h : p.receive i a = .ok q) : p.Receives a q := by
  rw [receive_eq] at h
  split at h
  · contradiction
  · next present =>
    have null : a.isNull → p.allow.null := by simpa using present
    split at h
    · next deferred =>
      cases h
      have closed : a.ty = .dynamic ∧ p.allow.dynamicType = false := by simpa using deferred
      exact .deferred null closed.1 closed.2
    · next settled =>
      have dynamicType : a.ty = .dynamic → p.allow.dynamicType := by simpa using settled
      split at h
      · contradiction
      · next w hw =>
        cases h
        exact .converted null dynamicType hw

theorem receive_of_receives {p : Param} {a : Value} {q : Prepared} (h : p.Receives a q) (i : Nat) :
    p.receive i a = .ok q := by
  rw [receive_eq]
  cases h with
  | deferred null dynamic refused =>
    have present : ¬ (a.isNull && !p.allow.null) = true := by simpa using null
    rw [if_neg present, if_pos (by simp [dynamic, refused])]
  | converted null dynamicType hw =>
    have present : ¬ (a.isNull && !p.allow.null) = true := by simpa using null
    have settled : ¬ (a.ty.isDynamic && !p.allow.dynamicType) = true := by
      simpa using dynamicType
    rw [if_neg present, if_neg settled, hw]

end Param

namespace Function

variable {f : Function}

def everyParam (f : Function) (check : Param → Bool) : Bool :=
  f.params.all check && f.varParam.all check

theorem check_of_everyParam {check : Param → Bool} (h : f.everyParam check = true) {i : Nat}
    {p : Param} (hp : f.paramFor i = some p) : check p = true := by
  simp only [everyParam, Bool.and_eq_true, List.all_eq_true] at h
  rcases Option.or_eq_some_iff.1 hp with hp | ⟨_, hp⟩
  · exact h.1 p (List.mem_of_getElem? hp)
  · have rest := h.2
    rwa [hp] at rest

/-- The arguments from place `i` on pass their parameters one by one. -/
inductive Prepares (f : Function) : Nat → List Value → Prepared → Prop
  | nil (i : Nat) : Prepares f i [] .nothing
  | cons {i : Nat} {p : Param} {a : Value} {rest : List Value} {q r : Prepared} :
    f.paramFor i = some p → p.Receives a q → Prepares f (i + 1) rest r →
    Prepares f i (a :: rest) (q.append r)

theorem prepares_of_prepareFrom {i : Nat} {args : List Value} {q : Prepared}
    (h : f.prepareFrom i args = .ok q) : f.Prepares i args q := by
  induction args generalizing i q with
  | nil =>
    cases h
    exact .nil i
  | cons a rest ih =>
    rw [prepareFrom] at h
    split at h
    · contradiction
    · next p hp =>
      simp only [bind_eq_ok] at h
      obtain ⟨first, hfirst, others, hothers, heq⟩ := h
      cases heq
      exact .cons hp (Param.receives_of_receive hfirst) (ih hothers)

theorem prepareFrom_of_prepares {i : Nat} {args : List Value} {q : Prepared}
    (h : f.Prepares i args q) : f.prepareFrom i args = .ok q := by
  induction h with
  | nil i => rfl
  | @cons i p a rest q r hp hq _ ih =>
    rw [prepareFrom, hp]
    simp only [bind_eq_ok]
    exact ⟨q, Param.receive_of_receives hq i, r, ih, rfl⟩

theorem arityFault?_of_prepare {args : List Value} {q : Prepared} (h : f.prepare args = .ok q) :
    f.arityFault? args.length = none := by
  unfold prepare at h
  split at h
  · contradiction
  · assumption

theorem prepares_of_prepare {args : List Value} {q : Prepared} (h : f.prepare args = .ok q) :
    f.Prepares 0 args q := by
  unfold prepare at h
  split at h
  · contradiction
  · exact prepares_of_prepareFrom h

namespace Prepares

variable {i : Nat} {args : List Value} {q : Prepared}

theorem length_eq (h : f.Prepares i args q) : q.args.length = args.length := by
  induction h with
  | nil i => rfl
  | cons _ hq _ ih =>
    cases hq <;> simp [Prepared.append, ih]

/-- Some argument of the given kind stands at a place from `i` on, with its parameter. -/
def SomeArgument (f : Function) (i : Nat) (args : List Value) (kind : Value → Param → Prop) : Prop :=
  ∃ j a p, args[j]? = some a ∧ f.paramFor (i + j) = some p ∧ kind a p

theorem someArgument_nil {kind : Value → Param → Prop} : ¬ SomeArgument f i [] kind := by
  rintro ⟨j, a, p, ha, _⟩
  simp at ha

theorem someArgument_cons {a : Value} {rest : List Value} {p : Param}
    {kind : Value → Param → Prop} (hp : f.paramFor i = some p) :
    SomeArgument f i (a :: rest) kind ↔ kind a p ∨ SomeArgument f (i + 1) rest kind := by
  constructor
  · rintro ⟨j, b, r, hb, hr, hk⟩
    cases j with
    | zero =>
      simp only [List.getElem?_cons_zero, Option.some.injEq, Nat.add_zero, hp] at hb hr
      subst hb
      subst hr
      exact .inl hk
    | succ j =>
      rw [List.getElem?_cons_succ] at hb
      rw [← Nat.add_assoc, Nat.add_right_comm] at hr
      exact .inr ⟨j, b, r, hb, hr, hk⟩
  · rintro (hk | ⟨j, b, r, hb, hr, hk⟩)
    · exact ⟨0, a, p, rfl, hp, hk⟩
    · refine ⟨j + 1, b, r, hb, ?_, hk⟩
      rwa [← Nat.add_assoc, Nat.add_right_comm]

theorem mem_marks (h : f.Prepares i args q) (m : Mark) :
    m ∈ q.marks ↔ SomeArgument f i args fun a p => m ∈ p.taken a := by
  induction h with
  | nil i => simp [Prepared.nothing, someArgument_nil]
  | @cons i p a rest q r hp hq _ ih =>
    rw [someArgument_cons hp, ← ih]
    cases hq <;> simp [Prepared.append, or_comm]

/-- A call waits exactly when some argument has a type that is not known yet and not taken. -/
theorem deferred_iff (h : f.Prepares i args q) :
    q.deferred = true ↔
      SomeArgument f i args fun a p => a.ty = .dynamic ∧ p.allow.dynamicType = false := by
  induction h with
  | nil i => simp [Prepared.nothing, someArgument_nil]
  | @cons i p a rest q r hp hq _ ih =>
    rw [someArgument_cons hp, ← ih]
    cases hq with
    | deferred _ dynamic refused => simp [Prepared.append, dynamic, refused]
    | converted _ dynamicType _ =>
      simpa [Prepared.append] using fun dynamic refused => by simp [dynamicType dynamic] at refused

/-- Once no argument makes the call wait, it is cut short exactly when some argument is unknown
    where unknowns are not taken. -/
theorem shortCircuit_iff (h : f.Prepares i args q) (settled : q.deferred = false) :
    q.shortCircuit = true ↔
      SomeArgument f i args fun a p => a.isUnknown = true ∧ p.allow.unknown = false := by
  induction h with
  | nil i => simp [Prepared.nothing, someArgument_nil]
  | @cons i p a rest q r hp hq _ ih =>
    simp only [Prepared.append, Bool.or_eq_false_iff] at settled
    rw [someArgument_cons hp, ← ih settled.2]
    cases hq with
    | deferred _ _ _ => simp at settled
    | @converted w _ _ hw =>
      have state : w.isUnknown = a.isUnknown := by simpa using Value.isUnknown_convert hw
      simp [Prepared.append, state]

theorem converted (h : f.Prepares i args q) (settled : q.deferred = false) {j : Nat} {a w : Value}
    (ha : args[j]? = some a) (hw : q.args[j]? = some w) :
    ∃ p, f.paramFor (i + j) = some p ∧ (a.isNull → p.allow.null) ∧
      (a.ty = .dynamic → p.allow.dynamicType) ∧ Value.convert (p.strip a) p.ty = .ok w := by
  induction h generalizing j with
  | nil i => simp at ha
  | @cons i p b rest q r hp hq _ ih =>
    simp only [Prepared.append, Bool.or_eq_false_iff] at settled hw
    cases hq with
    | deferred _ _ _ => simp at settled
    | @converted v null dynamicType hv =>
      cases j with
      | zero =>
        simp only [List.getElem?_cons_zero, List.cons_append, Option.some.injEq] at ha hw
        subst ha
        subst hw
        exact ⟨p, hp, null, dynamicType, hv⟩
      | succ j =>
        have later := ih settled.2 (by simpa using ha) (by simpa using hw)
        rwa [Nat.add_right_comm, Nat.add_assoc] at later

end Prepares

/-- What a call comes to, with the type that is promised for it. -/
inductive Planned (f : Function) (args : List Value) : Outcome Plan → Outcome Ty → Prop
  | failed (e : CallError) : Planned f args (.error e) (.error e)
  | deferred {q : Prepared} : f.Prepares 0 args q → q.deferred = true →
    Planned f args (.ok (.defer q.marks)) (.ok .dynamic)
  | unknown {q : Prepared} {ret : Ty} : f.Prepares 0 args q → q.deferred = false →
    f.resolveType q.args = .ok ret → q.shortCircuit = true →
    Planned f args (.ok (.unknown ret q.marks)) (.ok ret)
  | run {q : Prepared} {ret : Ty} : f.Prepares 0 args q → q.deferred = false →
    f.resolveType q.args = .ok ret → q.shortCircuit = false →
    Planned f args (.ok (.run q.args ret q.marks)) (.ok ret)

theorem planned (f : Function) (args : List Value) :
    f.Planned args (f.plan args) (f.returnType args) := by
  unfold plan returnType
  cases hq : f.prepare args with
  | error e => exact .failed e
  | ok q =>
    have prepares := prepares_of_prepare hq
    simp only [bind, Except.bind]
    cases settled : q.deferred with
    | true => exact .deferred prepares settled
    | false =>
      simp only [Bool.false_eq_true, if_false]
      cases hret : f.resolveType q.args with
      | error e => exact .failed e
      | ok ret =>
        simp only
        cases short : q.shortCircuit with
        | true => exact .unknown prepares settled hret short
        | false => exact .run prepares settled hret short

def finish (f : Function) (ret : Ty) (marks : MarkSet) (outcome : Outcome Value) :
    Outcome Value := do
  let result ← outcome.mapError f.annotate
  let v ← f.conform result ret
  .ok (v.withMarks marks)

theorem conform_eq_ok {result v : Value} {ret : Ty} (h : f.conform result ret = .ok v) :
    ¬ (f.notNull && result.isNull) = true ∧ ∃ w, Value.convert result ret = .ok w ∧
      v = if f.notNull then w.refineNotNull else w := by
  unfold conform at h
  split at h
  · contradiction
  · next present =>
    split at h
    · contradiction
    · next w hw =>
      cases h
      exact ⟨present, w, hw, rfl⟩

theorem conform_of_ty {result : Value} {ret : Ty} (type : result.ty = ret)
    (present : result.isNull = false) (known : result.isUnknown = false) :
    f.conform result ret = .ok result := by
  have kept : result.refineNotNull = result := by
    cases result with
    | unknown t r m => cases known
    | _ => rfl
  rw [conform, present, Bool.and_false, if_neg Bool.false_ne_true,
    Value.convert_of_same (.inr type)]
  simp only [kept, ite_self]

theorem finish_of_conform {result : Value} {ret : Ty} (h : f.conform result ret = .ok result) :
    f.finish ret ∅ (.ok result) = .ok result := by
  simp only [finish, mapError_ok, bind, Except.bind, h, Value.withMarks_empty]

theorem finish_of_same {result : Value} {ret : Ty} (nullable : f.notNull = false)
    (same : ret = .dynamic ∨ result.ty = ret) : f.finish ret ∅ (.ok result) = .ok result := by
  apply finish_of_conform
  rw [conform, nullable, Bool.false_and, if_neg Bool.false_ne_true, Value.convert_of_same same]
  rfl

theorem finish_of_ty {result : Value} {ret : Ty} (nullable : f.notNull = false)
    (type : result.ty = ret) : f.finish ret ∅ (.ok result) = .ok result :=
  finish_of_same nullable (.inr type)

theorem finish_eq_ok {ret : Ty} {marks : MarkSet} {outcome : Outcome Value} {v : Value}
    (h : f.finish ret marks outcome = .ok v) :
    ∃ result w, outcome = .ok result ∧ f.conform result ret = .ok w ∧ v = w.withMarks marks := by
  simp only [finish, bind_eq_ok, mapError_eq_ok] at h
  obtain ⟨result, hresult, w, hw, heq⟩ := h
  cases heq
  exact ⟨result, w, hresult, hw, rfl⟩

/-- A call is what its plan says. -/
theorem call_eq (f : Function) (ctx : Context) (args : List Value) :
    f.call ctx args = match f.plan args with
      | .error e => .error e
      | .ok (.defer marks) => .ok (Value.dynamic.withMarks marks)
      | .ok (.unknown ret marks) => .ok ((f.unknownResult ret).withMarks marks)
      | .ok (.run seen ret marks) => f.finish ret marks (f.body ctx seen ret) := by
  unfold call
  cases f.plan args with
  | error e => rfl
  | ok plan => cases plan <;> rfl

theorem call_of_arityFault {args : List Value} {fault : CallFault}
    (h : f.arityFault? args.length = some fault) (ctx : Context) :
    f.call ctx args = .error (.ofFault fault) := by
  have plan : f.plan args = .error (.ofFault fault) := by
    rw [Function.plan, prepare, h]
    rfl
  rw [call_eq, plan]

theorem call_of_prepare {args : List Value} {q : Prepared} (h : f.prepare args = .ok q)
    (ctx : Context) :
    f.call ctx args =
      if q.deferred then .ok (Value.dynamic.withMarks q.marks)
      else f.resolveType q.args >>= fun ret =>
        if q.shortCircuit then .ok ((f.unknownResult ret).withMarks q.marks)
        else f.finish ret q.marks (f.body ctx q.args ret) := by
  rw [call_eq, Function.plan, h]
  simp only [bind, Except.bind]
  cases q.deferred with
  | true => rfl
  | false =>
    simp only [Bool.false_eq_true, if_false]
    cases f.resolveType q.args with
    | error e => rfl
    | ok ret =>
      simp only
      cases q.shortCircuit <;> rfl

theorem append_nothing (q : Prepared) : q.append .nothing = q := by
  simp [Prepared.append, Prepared.nothing]

theorem call_single {p : Param} (params : f.params = [p]) (fixed : f.varParam = none)
    (ctx : Context) (a : Value) :
    f.call ctx [a] = (p.receive 0 a >>= fun q =>
      if q.deferred then .ok (Value.dynamic.withMarks q.marks)
      else f.resolveType q.args >>= fun ret =>
        if q.shortCircuit then .ok ((f.unknownResult ret).withMarks q.marks)
        else f.finish ret q.marks (f.body ctx q.args ret)) := by
  have arity : f.arityFault? 1 = none := by simp [arityFault?, params, fixed]
  have first : f.paramFor 0 = some p := by simp [paramFor, params]
  have prepared : f.prepare [a] = p.receive 0 a := by
    rw [prepare, List.length_singleton, arity]
    simp only [prepareFrom, first]
    cases p.receive 0 a with
    | error e => rfl
    | ok q => simp [bind, Except.bind, append_nothing]
  cases hq : p.receive 0 a with
  | error e =>
    rw [hq] at prepared
    rw [call_eq, Function.plan, prepared]
    rfl
  | ok q => exact call_of_prepare (prepared.trans hq) ctx

theorem call_of_length_ne {p : Param} (params : f.params = [p]) (fixed : f.varParam = none)
    {args : List Value} (h : args.length ≠ 1) (ctx : Context) :
    f.call ctx args = .error (.ofFault (.arity f.name "1 argument" args.length)) := by
  apply call_of_arityFault
  simp [arityFault?, params, fixed, h, countText]

end Function

end MarkedValues
