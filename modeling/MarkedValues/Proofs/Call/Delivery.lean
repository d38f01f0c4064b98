import MarkedValues.Proofs.Call.Preparation

/-!
Calls whose arguments all reach the body. An unmarked argument in a state that its parameter takes
is handed over converted; when every argument is, nothing is kept aside, and the call is what the
rule and the body make of the converted arguments. Where null is refused, a call with known
arguments succeeds in this way only.
-/
namespace MarkedValues

open Outcomes

namespace Param

/-- The argument has no marks and is in a state that the parameter takes; it is handed over as
    `w`. -/
structure HandsOver (p : Param) (a w : Value) : Prop where
  unmarked : a.Unmarked
  null : a.isNull → p.allow.null
  dynamicType : a.ty = .dynamic → p.allow.dynamicType
  unknown : a.isUnknown → p.allow.unknown
  converted : Value.convert a p.ty = .ok w

variable {p : Param} {a w : Value}

theorem handsOver_of_convert (unmarked : a.Unmarked) (present : a.isNull = false)
    (known : a.isUnknown = false) (converted : Value.convert a p.ty = .ok w) : p.HandsOver a w where
  unmarked := unmarked
  null := by simp [present]
  dynamicType := fun dynamic => absurd dynamic (Value.ty_ne_dynamic present known)
  unknown := by simp [known]
  converted := converted

theorem handsOver_self (unmarked : a.Unmarked) (present : a.isNull = false)
    (known : a.isUnknown = false) (same : p.ty = .dynamic ∨ a.ty = p.ty) : p.HandsOver a a :=
  handsOver_of_convert unmarked present known (Value.convert_of_same same)

theorem HandsOver.present (h : p.HandsOver a w) (refused : p.allow.null = false) :
    a.isNull = false := by
  simpa [refused] using h.null

theorem strip_of_unmarked (p : Param) (unmarked : a.Unmarked) : p.strip a = a := by
  rw [strip, Value.erase_eq_self unmarked, ite_self]

theorem taken_of_unmarked (p : Param) (unmarked : a.Unmarked) : p.taken a = ∅ := by
  have none : a.allMarks = ∅ := unmarked
  rw [taken, none, ite_self]

theorem HandsOver.receives (h : p.HandsOver a w) : p.Receives a ⟨[w], ∅, false, false⟩ := by
  have converted : Value.convert (p.strip a) p.ty = .ok w := by
    rw [strip_of_unmarked p h.unmarked]
    exact h.converted
  have complete : (w.isUnknown && !p.allow.unknown) = false := by
    rw [Value.isUnknown_convert h.converted]
    simpa using h.unknown
  have received := Receives.converted h.null h.dynamicType converted
  rwa [taken_of_unmarked p h.unmarked, complete] at received

theorem Receives.handsOver {q : Prepared} (h : p.Receives a q) (unmarked : a.Unmarked)
    (known : a.isUnknown = false) (refused : p.allow.null = false) :
    ∃ w, p.HandsOver a w ∧ q = ⟨[w], ∅, false, false⟩ := by
  cases h with
  | deferred null dynamic _ =>
    have present : a.isNull = false := by simpa [refused] using null
    exact absurd dynamic (Value.ty_ne_dynamic present known)
  | @converted w null dynamicType converted =>
    rw [strip_of_unmarked p unmarked] at converted
    have complete : w.isUnknown = false := (Value.isUnknown_convert converted).trans known
    refine ⟨w, ⟨unmarked, null, dynamicType, by simp [known], converted⟩, ?_⟩
    rw [taken_of_unmarked p unmarked, complete, Bool.false_and]

end Param

namespace Function

variable {f : Function}

/-- The arguments from place `i` on are all handed over, as the second list. -/
inductive Delivers (f : Function) : Nat → List Value → List Value → Prop
  | nil (i : Nat) : Delivers f i [] []
  | cons {i : Nat} {p : Param} {a w : Value} {args seen : List Value} :
    f.paramFor i = some p → p.HandsOver a w → Delivers f (i + 1) args seen →
    Delivers f i (a :: args) (w :: seen)

theorem resolveType_of_rule {resolve : Resolver} {args : List Value} {ret : Ty}
    (rule : f.rule = .resolved resolve) (type : resolve args = .ok ret) :
    f.resolveType args = .ok ret := by
  rw [resolveType, rule]
  exact mapError_eq_ok.2 type

namespace Delivers

variable {i : Nat} {args seen : List Value}

theorem uncons {a : Value} {p : Param} (h : f.Delivers i (a :: args) seen)
    (param : f.paramFor i = some p) :
    ∃ w rest, seen = w :: rest ∧ p.HandsOver a w ∧ f.Delivers (i + 1) args rest := by
  cases h with
  | cons hp here later =>
    cases param.symm.trans hp
    exact ⟨_, _, rfl, here, later⟩

theorem prepares (h : f.Delivers i args seen) : f.Prepares i args ⟨seen, ∅, false, false⟩ := by
  induction h with
  | nil i => exact .nil i
  | cons hp here _ later =>
    have prepared := Prepares.cons hp here.receives later
    rwa [Prepared.append, MarkSet.union_empty] at prepared

theorem call (h : f.Delivers 0 args seen) (arity : f.arityFault? args.length = none)
    (ctx : Context) :
    f.call ctx args = f.resolveType seen >>= fun ret => f.finish ret ∅ (f.body ctx seen ret) := by
  have prepared : f.prepare args = .ok ⟨seen, ∅, false, false⟩ := by
    rw [prepare, arity]
    exact prepareFrom_of_prepares h.prepares
  rw [call_of_prepare prepared]
  rfl

theorem call_eq_ok (h : f.Delivers 0 args seen) (arity : f.arityFault? args.length = none)
    {ctx : Context} {ret : Ty} {v : Value} (type : f.resolveType seen = .ok ret)
    (body : f.body ctx seen ret = .ok v) (finish : f.finish ret ∅ (.ok v) = .ok v) :
    f.call ctx args = .ok v := by
  rw [h.call arity, type]
  simp only [bind, Except.bind, body, finish]

end Delivers

theorem delivers_rest {p : Param} (none : f.params = []) (rest : f.varParam = some p)
    {args : List Value} (each : ∀ a ∈ args, p.HandsOver a a) (i : Nat) : f.Delivers i args args := by
  induction args generalizing i with
  | nil => exact .nil i
  | cons a args ih =>
    have param : f.paramFor i = some p := by
      rw [paramFor, none, List.getElem?_nil, Option.none_or, rest]
    exact .cons param (each a List.mem_cons_self)
      (ih (fun b hb => each b (List.mem_cons_of_mem a hb)) (i + 1))

theorem call_of_rest {p : Param} (none : f.params = []) (rest : f.varParam = some p)
    {args : List Value} (each : ∀ a ∈ args, p.HandsOver a a) (ctx : Context) :
    f.call ctx args = f.resolveType args >>= fun ret => f.finish ret ∅ (f.body ctx args ret) := by
  refine (delivers_rest none rest each 0).call ?_ ctx
  simp [arityFault?, none, rest]

section

variable (refused : ∀ i p, f.paramFor i = some p → p.allow.null = false) {args : List Value}
  (unmarked : ∀ a ∈ args, a.Unmarked) (known : ∀ a ∈ args, a.isUnknown = false)

include refused unmarked known

theorem delivers_of_prepares {i : Nat} {q : Prepared} (h : f.Prepares i args q) :
    ∃ seen, f.Delivers i args seen ∧ q = ⟨seen, ∅, false, false⟩ := by
  induction h with
  | nil i => exact ⟨[], .nil i, rfl⟩
  | @cons i p a rest q r hp hq _ ih =>
    obtain ⟨cleanHere, cleanLater⟩ := List.forall_mem_cons.1 unmarked
    obtain ⟨knownHere, knownLater⟩ := List.forall_mem_cons.1 known
    obtain ⟨w, here, rfl⟩ := hq.handsOver cleanHere knownHere (refused i p hp)
    obtain ⟨seen, later, rfl⟩ := ih cleanLater knownLater
    refine ⟨w :: seen, .cons hp here later, ?_⟩
    rw [Prepared.append, MarkSet.union_empty]
    rfl

/-- Where null is refused, a call with known arguments succeeds exactly when all are handed over and
    the rule and the body succeed on them. -/
theorem call_eq_ok_iff_delivers {ctx : Context} {v : Value} :
    f.call ctx args = .ok v ↔ f.arityFault? args.length = none ∧
      ∃ seen, f.Delivers 0 args seen ∧
        (f.resolveType seen >>= fun ret => f.finish ret ∅ (f.body ctx seen ret)) = .ok v := by
  constructor
  · intro call
    cases hq : f.prepare args with
    | error e =>
      rw [call_eq, Function.plan, hq] at call
      cases call
    | ok q =>
      have arity := arityFault?_of_prepare hq
      obtain ⟨seen, delivers, _⟩ := delivers_of_prepares refused unmarked known
        (prepares_of_prepare hq)
      exact ⟨arity, seen, delivers, delivers.call arity ctx ▸ call⟩
  · rintro ⟨arity, seen, delivers, runs⟩
    rw [delivers.call arity, runs]

end

end Function

end MarkedValues
