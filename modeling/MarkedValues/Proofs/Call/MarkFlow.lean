import MarkedValues.Proofs.Call.Preparation

/-!
Marks and calls of functions that take no marks. Such a call is the call on the erased arguments,
and every mark of the arguments goes on top of its result, whichever way the call ends.
-/
namespace MarkedValues

open Outcomes

@[simp] theorem gives_blame {α : Type} {P : α → Prop} {i : Nat} {message : String} :
    Gives P (blame i message : Outcome α) :=
  gives_error

def Function.TakesNoMarks (f : Function) : Prop :=
  ∀ i p, f.paramFor i = some p → p.allow.marked = false

def Prepared.unmarked (q : Prepared) : Prepared := { q with marks := ∅ }

theorem Prepared.unmarked_append (q r : Prepared) :
    (q.append r).unmarked = q.unmarked.append r.unmarked := by
  simp [unmarked, append]

def Plan.unmarked : Plan → Plan
  | .defer _ => .defer ∅
  | .unknown ret _ => .unknown ret ∅
  | .run args ret _ => .run args ret ∅

namespace Param

variable {p : Param}

theorem strip_erase (refused : p.allow.marked = false) (a : Value) :
    p.strip a.erase = p.strip a := by
  simp [strip, refused]

theorem receive_erase (refused : p.allow.marked = false) (i : Nat) (a : Value) :
    p.receive i a.erase = (p.receive i a).map Prepared.unmarked := by
  have none : p.taken a.erase = ∅ := by
    simp only [taken, refused, Bool.false_eq_true, if_false]
    exact Value.unmarked_erase a
  rw [receive_eq, receive_eq, strip_erase refused, none, Value.isNull_erase, Value.ty_erase]
  by_cases null : (a.isNull && !p.allow.null) = true
  · rw [if_pos null, if_pos null]
    rfl
  · rw [if_neg null, if_neg null]
    by_cases deferred : (a.ty.isDynamic && !p.allow.dynamicType) = true
    · rw [if_pos deferred, if_pos deferred]
      rfl
    · rw [if_neg deferred, if_neg deferred]
      cases Value.convert (p.strip a) p.ty <;> rfl

end Param

namespace Function

variable {f : Function}

theorem prepareFrom_erase (strict : f.TakesNoMarks) (i : Nat) (args : List Value) :
    f.prepareFrom i (args.map Value.erase) = (f.prepareFrom i args).map Prepared.unmarked := by
  induction args generalizing i with
  | nil => rfl
  | cons a rest ih =>
    rw [List.map_cons, prepareFrom, prepareFrom]
    cases hp : f.paramFor i with
    | none => rfl
    | some p =>
      simp only [Param.receive_erase (strict i p hp), ih]
      cases p.receive i a with
      | error e => rfl
      | ok q =>
        cases f.prepareFrom (i + 1) rest with
        | error e => rfl
        | ok r => simp [bind, Except.bind, Except.map, Prepared.unmarked_append]

theorem prepare_erase (strict : f.TakesNoMarks) (args : List Value) :
    f.prepare (args.map Value.erase) = (f.prepare args).map Prepared.unmarked := by
  unfold prepare
  rw [List.length_map]
  cases f.arityFault? args.length with
  | some fault => rfl
  | none => exact prepareFrom_erase strict 0 args

theorem marks_of_prepares (strict : f.TakesNoMarks) {i : Nat} {args : List Value} {q : Prepared}
    (h : f.Prepares i args q) : q.marks = Value.marksOfAll args := by
  induction h with
  | nil i => rfl
  | @cons i p a rest q r hp hq _ ih =>
    have taken : p.taken a = a.allMarks := by
      simp [Param.taken, strict i p hp]
    have first : q.marks = a.allMarks := by
      cases hq <;> exact taken
    simp only [Prepared.append, Value.marksOfAll, first, ih]

theorem plan_erase (strict : f.TakesNoMarks) (args : List Value) :
    f.plan (args.map Value.erase) = (f.plan args).map Plan.unmarked := by
  unfold plan
  rw [prepare_erase strict]
  cases f.prepare args with
  | error e => rfl
  | ok q =>
    simp only [bind, Except.bind, Except.map, Prepared.unmarked]
    split
    · rfl
    · cases f.resolveType q.args with
      | error e => rfl
      | ok ret =>
        simp only
        split <;> rfl

theorem finish_marks (f : Function) (ret : Ty) (marks : MarkSet) (outcome : Outcome Value) :
    f.finish ret marks outcome = (f.finish ret ∅ outcome).map (·.withMarks marks) := by
  unfold finish
  cases outcome.mapError f.annotate with
  | error e => rfl
  | ok result =>
    cases hv : f.conform result ret with
    | error e => simp [bind, Except.bind, Except.map, hv]
    | ok v => simp [bind, Except.bind, Except.map, hv]

/-- A function that takes no marks gives what it gives for the erased arguments, with all marks of
    the arguments on top. -/
theorem call_of_takesNoMarks (strict : f.TakesNoMarks) (ctx : Context) (args : List Value) :
    f.call ctx args =
      (f.call ctx (args.map Value.erase)).map (·.withMarks (Value.marksOfAll args)) := by
  rw [call_eq, call_eq, plan_erase strict]
  have planned := f.planned args
  generalize f.plan args = plan at planned
  generalize f.returnType args = promised at planned
  cases planned with
  | failed e => rfl
  | deferred prepares _ =>
    rw [← marks_of_prepares strict prepares]
    simp [Except.map, Plan.unmarked]
  | unknown prepares _ _ _ =>
    rw [← marks_of_prepares strict prepares]
    simp [Except.map, Plan.unmarked]
  | run prepares _ _ _ =>
    rw [← marks_of_prepares strict prepares]
    exact finish_marks f _ _ _

def BodyUnmarked (f : Function) : Prop :=
  ∀ ctx args ret, (∀ a ∈ args, a.Unmarked) → Gives Value.Unmarked (f.body ctx args ret)

theorem unmarked_args {i : Nat} {args : List Value} {q : Prepared}
    (unmarked : ∀ a ∈ args, a.Unmarked) (h : f.Prepares i args q) : ∀ a ∈ q.args, a.Unmarked := by
  induction h with
  | nil i => simp [Prepared.nothing]
  | @cons i p a rest q r hp hq _ ih =>
    have stripped : (p.strip a).Unmarked := by
      unfold Param.strip
      split
      · exact unmarked a (by simp)
      · exact Value.unmarked_erase a
    intro w hw
    rcases List.mem_append.1 hw with hw | hw
    · cases hq with
      | deferred _ _ _ =>
        cases List.mem_singleton.1 hw
        exact stripped
      | converted _ _ hconv =>
        cases List.mem_singleton.1 hw
        exact stripped.convert hconv
    · exact ih (fun b hb => unmarked b (by simp [hb])) w hw

theorem unmarked_finish {ret : Ty} {outcome : Outcome Value} {v : Value}
    (clean : Gives Value.Unmarked outcome) (h : f.finish ret ∅ outcome = .ok v) :
    v.Unmarked := by
  obtain ⟨result, w, hresult, hw, rfl⟩ := finish_eq_ok h
  obtain ⟨_, u, hu, rfl⟩ := conform_eq_ok hw
  have unmarked : u.Unmarked := (clean result hresult).convert hu
  rw [Value.withMarks_empty]
  split
  · cases u <;> exact unmarked
  · exact unmarked

theorem unmarked_call (strict : f.TakesNoMarks) (clean : f.BodyUnmarked) {ctx : Context}
    {args : List Value} {v : Value} (unmarked : ∀ a ∈ args, a.Unmarked)
    (h : f.call ctx args = .ok v) : v.Unmarked := by
  have none : Value.marksOfAll args = ∅ := Value.marksOfAll_eq_empty.2 unmarked
  rw [call_eq] at h
  have planned := f.planned args
  generalize f.plan args = plan at planned h
  generalize f.returnType args = promised at planned
  cases planned with
  | failed e => contradiction
  | deferred prepares _ =>
    rw [marks_of_prepares strict prepares, none] at h
    cases h
    rfl
  | @unknown q ret prepares _ _ _ =>
    rw [marks_of_prepares strict prepares, none] at h
    cases h
    unfold unknownResult
    split <;> rfl
  | run prepares _ _ _ =>
    rw [marks_of_prepares strict prepares, none] at h
    exact unmarked_finish (clean ctx _ _ (unmarked_args unmarked prepares)) h

/-- Marks neither decide how a call ends nor get lost in it. -/
def CarriesMarks (f : Function) (ctx : Context) (args : List Value) : Prop :=
  (∃ e, f.call ctx args = .error e ∧ f.call ctx (args.map Value.erase) = .error e) ∨
  ∃ v w, f.call ctx args = .ok v ∧ f.call ctx (args.map Value.erase) = .ok w ∧ v.erase = w ∧
    v.allMarks = Value.marksOfAll args

theorem carriesMarks_of_takesNoMarks (strict : f.TakesNoMarks) (clean : f.BodyUnmarked)
    (ctx : Context) (args : List Value) : f.CarriesMarks ctx args := by
  have run := call_of_takesNoMarks strict ctx args
  cases h : f.call ctx (args.map Value.erase) with
  | error e =>
    rw [h] at run
    exact .inl ⟨e, run, h⟩
  | ok w =>
    have erased : ∀ a ∈ args.map Value.erase, a.Unmarked := by
      simp
    have unmarked : w.Unmarked := unmarked_call strict clean erased h
    rw [h] at run
    refine .inr ⟨w.withMarks (Value.marksOfAll args), w, run, h, ?_, ?_⟩
    · rw [Value.erase_withMarks, Value.erase_eq_self unmarked]
    · rw [Value.allMarks_withMarks, show w.allMarks = ∅ from unmarked, MarkSet.empty_union]

theorem erase_refineNotNull (v : Value) : v.refineNotNull.erase = v.erase.refineNotNull := by
  cases v <;> rfl

theorem conform_erase (f : Function) (result : Value) (ret : Ty) :
    f.conform result.erase ret = (f.conform result ret).map Value.erase := by
  unfold conform
  rw [Value.isNull_erase, Value.convert_erase, Value.ty_erase]
  split
  · rfl
  · cases Value.convert result ret with
    | error e => rfl
    | ok w =>
      simp only [Except.map]
      split
      · rw [erase_refineNotNull]
      · rfl

theorem finish_erase (f : Function) (ret : Ty) (outcome : Outcome Value) :
    f.finish ret ∅ (outcome.map Value.erase) = (f.finish ret ∅ outcome).map Value.erase := by
  cases outcome with
  | error e => rfl
  | ok result =>
    simp only [finish, Except.map, mapError_ok, bind, Except.bind]
    rw [conform_erase]
    cases f.conform result ret with
    | error e => rfl
    | ok v => simp [Except.map]

theorem carriesMarks_of_erase {ctx : Context} {args : List Value}
    (same : f.call ctx (args.map Value.erase) = (f.call ctx args).map Value.erase)
    (marks : ∀ v, f.call ctx args = .ok v → v.allMarks = Value.marksOfAll args) :
    f.CarriesMarks ctx args := by
  cases h : f.call ctx args with
  | error e =>
    rw [h] at same
    exact .inl ⟨e, h, same⟩
  | ok v =>
    rw [h] at same
    exact .inr ⟨v, v.erase, h, same, rfl, marks v h⟩

end Function

end MarkedValues
