import MarkedValues.Proofs.Call.Preparation

/-!
The contract between a call and the function that is called, for any parameters, rule and body. A
call keeps the promise of the return type, and a body is run at most once and only on arguments that
its parameters take.
-/
namespace MarkedValues.Function

open Outcomes
open Prepares (SomeArgument)

variable {f : Function}

theorem isNull_refineNotNull (v : Value) : v.refineNotNull.isNull = v.isNull := by
  cases v <;> rfl

theorem ty_refineNotNull (v : Value) : v.refineNotNull.ty = v.ty := by
  cases v <;> rfl

theorem isRefinedNotNull_refineNotNull {v : Value} (h : v.isUnknown) :
    v.refineNotNull.isRefinedNotNull := by
  cases v <;> simp [Value.isUnknown] at h
  rfl

theorem isUnknown_refineNotNull (v : Value) : v.refineNotNull.isUnknown = v.isUnknown := by
  cases v <;> rfl

theorem isRefinedNotNull_withMarks (v : Value) (m : MarkSet) :
    (v.withMarks m).isRefinedNotNull = v.isRefinedNotNull := by
  cases v <;> rfl

def KeepsNotNull (f : Function) (v : Value) : Prop :=
  f.notNull = true → v.isNull = false ∧ (v.isUnknown = true → v.isRefinedNotNull = true)

theorem keepsNotNull_unknownResult (f : Function) (ret : Ty) (m : MarkSet) :
    f.KeepsNotNull ((f.unknownResult ret).withMarks m) := by
  intro declared
  rw [unknownResult, if_pos declared]
  exact ⟨rfl, fun _ => rfl⟩

theorem fills_of_conform {result v : Value} {ret : Ty} (canonical : ret.Canonical)
    (h : f.conform result ret = .ok v) : Ty.Fills v.ty ret := by
  obtain ⟨_, w, hw, rfl⟩ := conform_eq_ok h
  have filled : Ty.Fills w.ty ret := Value.fills_convert canonical hw
  split
  · rwa [ty_refineNotNull]
  · exact filled

theorem keepsNotNull_of_conform {result v : Value} {ret : Ty} (h : f.conform result ret = .ok v)
    (m : MarkSet) : f.KeepsNotNull (v.withMarks m) := by
  intro declared
  obtain ⟨present, w, hw, rfl⟩ := conform_eq_ok h
  have null : w.isNull = false := by
    rw [Value.isNull_convert hw]
    simpa [declared] using present
  simp only [declared, if_true, Value.isNull_withMarks, Value.isUnknown_withMarks,
    isRefinedNotNull_withMarks, isNull_refineNotNull, isUnknown_refineNotNull]
  exact ⟨null, isRefinedNotNull_refineNotNull⟩

theorem ty_unknownResult (f : Function) (ret : Ty) : (f.unknownResult ret).ty = ret := by
  unfold unknownResult
  split <;> rfl

/-- A call and its return type agree: they fail together, and a result has the promised type with
    its open parts filled in. A function whose results are declared never to be null gives none, and
    an unknown that says so, unless the call had to wait for the type of an argument. -/
theorem call_keeps_returnType (f : Function) (ctx : Context) (args : List Value)
    (canonical : ∀ t, f.returnType args = .ok t → t.Canonical) :
    (∀ e, f.returnType args = .error e → f.call ctx args = .error e) ∧
    (∀ v, f.call ctx args = .ok v → ∃ t, f.returnType args = .ok t ∧ Ty.Fills v.ty t ∧
      (t.hasDynamic = false → v.ty = t)) ∧
    (f.notNull = true → ∀ v, f.call ctx args = .ok v → v.isNull = false ∧
      (v.isUnknown = true → v.isRefinedNotNull = true ∨
        SomeArgument f 0 args fun a p => a.ty = .dynamic ∧ p.allow.dynamicType = false)) := by
  have closed : ∀ {v : Value} {t : Ty}, Ty.Fills v.ty t → t.hasDynamic = false → v.ty = t :=
    fun h => (Ty.conversionType_matches h).eq_of_closed
  have planned := f.planned args
  rw [call_eq]
  generalize f.plan args = plan at planned
  generalize f.returnType args = promised at planned canonical
  cases planned with
  | failed e =>
    refine ⟨?_, ?_, ?_⟩
    · intro e' h
      cases h
      rfl
    · intro v h
      cases h
    · intro _ v h
      cases h
  | deferred prepares waits =>
    refine ⟨fun e h => (by cases h), ?_, ?_⟩
    · intro v h
      cases h
      exact ⟨.dynamic, rfl, rfl, fun _ => rfl⟩
    · intro _ v h
      cases h
      exact ⟨rfl, fun _ => .inr (prepares.deferred_iff.1 waits)⟩
  | @unknown q ret prepares _ _ _ =>
    refine ⟨fun e h => (by cases h), ?_, ?_⟩
    · intro v h
      cases h
      have filled : Ty.Fills ((f.unknownResult ret).withMarks q.marks).ty ret := by
        rw [Value.ty_withMarks, ty_unknownResult]
        exact Ty.conversionType_self ret
      exact ⟨ret, rfl, filled, closed filled⟩
    · intro declared v h
      cases h
      have kept := keepsNotNull_unknownResult f ret q.marks declared
      exact ⟨kept.1, fun h => .inl (kept.2 h)⟩
  | @run q ret prepares _ _ _ =>
    refine ⟨fun e h => (by cases h), ?_, ?_⟩
    · intro v h
      obtain ⟨result, w, _, hw, rfl⟩ := finish_eq_ok h
      have filled : Ty.Fills (w.withMarks q.marks).ty ret := by
        rw [Value.ty_withMarks]
        exact fills_of_conform (canonical ret rfl) hw
      exact ⟨ret, rfl, filled, closed filled⟩
    · intro declared v h
      obtain ⟨result, w, _, hw, rfl⟩ := finish_eq_ok h
      have kept := keepsNotNull_of_conform hw q.marks declared
      exact ⟨kept.1, fun h => .inl (kept.2 h)⟩

def openPromise : Function where
  name := "open"
  rule := .fixed (.tuple [.list .dynamic])
  notNull := true
  body := fun _ _ _ => .ok (.list .dynamic [.tuple [.bool true]])

theorem openPromise_keeps_returnType :
    (∀ t, openPromise.returnType [] = .ok t → t.Canonical) ∧
    ∃ v, openPromise.call {} [] = .ok v ∧ v.ty = .tuple [.list .bool] ∧
      (∃ t, openPromise.returnType [] = .ok t ∧ Ty.Fills v.ty t) ∧ v.isNull = false := by
  have canonical : ∀ t, openPromise.returnType [] = .ok t → t.Canonical := by
    intro t h
    cases h
    simp [Ty.Canonical]
  have runs : (openPromise.call {} []).toOption.map Value.ty = some (.tuple [.list .bool]) := by
    decide +kernel
  have kept := call_keeps_returnType openPromise {} [] canonical
  cases hv : openPromise.call {} [] with
  | error e =>
    rw [hv] at runs
    cases runs
  | ok v =>
    rw [hv] at runs
    obtain ⟨t, ht, filled, _⟩ := kept.2.1 v hv
    exact ⟨canonical, v, rfl, Option.some.inj runs, ⟨t, ht, filled⟩, (kept.2.2 rfl v hv).1⟩

theorem eq_dynamic_of_conversionType {s t : Ty} (h : Ty.conversionType s t = some .dynamic) :
    s = .dynamic := by
  have open_ : t = .dynamic := (Ty.conversionType_matches h).isDynamic
  subst open_
  exact Option.some.inj h

/-- No conversion forgets the type of a value. -/
theorem ty_eq_dynamic_of_convert {v w : Value} {t : Ty} (h : Value.convert v t = .ok w)
    (dynamic : w.ty = .dynamic) : v.ty = .dynamic := by
  cases Value.converts_of_convert h with
  | same _ => exact dynamic
  | null hu =>
    cases dynamic
    exact eq_dynamic_of_conversionType hu
  | unknown hu =>
    cases dynamic
    exact eq_dynamic_of_conversionType hu
  | scalar _ hw =>
    obtain ⟨c, rfl, _⟩ := Value.scalar_of_convertScalar hw
    cases c <;> cases dynamic
  | _ => cases dynamic

/-- What a body may rely on when it is handed `w` for the argument `a` of parameter `p`. -/
structure Accepted (p : Param) (a w : Value) : Prop where
  converted : Value.convert (p.strip a) p.ty = .ok w
  null : w.isNull = true → p.allow.null = true
  unknown : w.isUnknown = true → p.allow.unknown = true
  marked : w.containsMarks = true → p.allow.marked = true
  dynamicType : w.ty = .dynamic → p.allow.dynamicType = true
  fills : Ty.Fills w.ty p.ty

theorem accepted_of_convert {p : Param} {a w : Value} (canonical : p.ty.Canonical)
    (null : a.isNull → p.allow.null) (dynamicType : a.ty = .dynamic → p.allow.dynamicType)
    (known : ¬ (a.isUnknown = true ∧ p.allow.unknown = false))
    (h : Value.convert (p.strip a) p.ty = .ok w) : Accepted p a w where
  converted := h
  null := by
    rw [Value.isNull_convert h, Param.isNull_strip]
    exact null
  unknown := by
    rw [Value.isUnknown_convert h, Param.isUnknown_strip]
    simpa using known
  marked := by
    intro marked
    by_contra refused
    have stripped : (p.strip a).Unmarked := by
      simp [Param.strip, refused]
    have none : w.allMarks = ∅ := stripped.convert h
    rw [Value.containsMarks, none] at marked
    cases marked
  dynamicType := by
    intro dynamic
    have := ty_eq_dynamic_of_convert h dynamic
    rw [Param.ty_strip] at this
    exact dynamicType this
  fills := Value.fills_convert canonical h

def AcceptedAll (f : Function) (args seen : List Value) : Prop :=
  seen.length = args.length ∧ ∀ (i : Nat) (a w : Value), args[i]? = some a → seen[i]? = some w →
    ∃ p, f.paramFor i = some p ∧ Accepted p a w

/-- The marks found in the arguments whose parameters do not take marks. -/
def Collected (f : Function) (args : List Value) (marks : MarkSet) : Prop :=
  ∀ m, m ∈ marks ↔ SomeArgument f 0 args fun a p => p.allow.marked = false ∧ m ∈ a.allMarks

/-- The call with a body that may do more than compute its outcome. -/
def callWith {m : Type → Type} [Monad m] (f : Function)
    (body : Context → List Value → Ty → m (Outcome Value)) (ctx : Context) (args : List Value) :
    m (Outcome Value) :=
  match f.plan args with
  | .error e => pure (.error e)
  | .ok (.defer marks) => pure (.ok (Value.dynamic.withMarks marks))
  | .ok (.unknown ret marks) => pure (.ok ((f.unknownResult ret).withMarks marks))
  | .ok (.run seen ret marks) => do
    let outcome ← body ctx seen ret
    pure (f.finish ret marks outcome)

theorem prepareFrom_withBody (f : Function) (body : Body) (i : Nat) (args : List Value) :
    { f with body := body }.prepareFrom i args = f.prepareFrom i args := by
  induction args generalizing i with
  | nil => rfl
  | cons a rest ih =>
    rw [prepareFrom, prepareFrom, ih]
    rfl

theorem plan_withBody (f : Function) (body : Body) (args : List Value) :
    { f with body := body }.plan args = f.plan args := by
  unfold plan prepare
  rw [prepareFrom_withBody]
  rfl

theorem callWith_id (f : Function) (body : Body) (ctx : Context) (args : List Value) :
    f.callWith (m := Id) body ctx args = { f with body := body }.call ctx args := by
  rw [call_eq, plan_withBody, callWith]
  cases f.plan args with
  | error e => rfl
  | ok plan => cases plan <;> rfl

/-- The body is run once, on accepted arguments, and the call ends with what it gives. -/
def RunsOnce (f : Function) (ctx : Context) (args : List Value) : Prop :=
  ∃ seen ret marks, AcceptedAll f args seen ∧ f.returnType args = .ok ret ∧
    Collected f args marks ∧
    (∀ body : Body, { f with body := body }.call ctx args = f.finish ret marks (body ctx seen ret)) ∧
    ∀ (m : Type → Type) [Monad m] (body : Context → List Value → Ty → m (Outcome Value)),
      f.callWith body ctx args = (do
        let outcome ← body ctx seen ret
        pure (f.finish ret marks outcome))

/-- How a call ends that does not come to its body. -/
inductive Settled (f : Function) (args : List Value) : Outcome Value → Prop
  | failed {e : CallError} : f.returnType args = .error e → Settled f args (.error e)
  | deferred {marks : MarkSet} : Collected f args marks →
    (SomeArgument f 0 args fun a p => a.ty = .dynamic ∧ p.allow.dynamicType = false) →
    Settled f args (.ok (.unknown .dynamic false marks))
  | unknown {ret : Ty} {marks : MarkSet} : Collected f args marks →
    (SomeArgument f 0 args fun a p => a.isUnknown = true ∧ p.allow.unknown = false) →
    f.returnType args = .ok ret → Settled f args (.ok (.unknown ret f.notNull marks))

def RunsNever (f : Function) (ctx : Context) (args : List Value) : Prop :=
  ∃ outcome, Settled f args outcome ∧
    (∀ body : Body, { f with body := body }.call ctx args = outcome) ∧
    ∀ (m : Type → Type) [Monad m] (body : Context → List Value → Ty → m (Outcome Value)),
      f.callWith body ctx args = pure outcome

theorem dynamic_withMarks (marks : MarkSet) :
    Value.dynamic.withMarks marks = .unknown .dynamic false marks := by
  have top : Value.dynamic.withMarks marks = .unknown .dynamic false (∅ ∪ marks) := rfl
  rw [top, MarkSet.empty_union]

theorem unknownResult_withMarks (f : Function) (ret : Ty) (marks : MarkSet) :
    (f.unknownResult ret).withMarks marks = .unknown ret f.notNull marks := by
  have top : f.unknownResult ret = .unknown ret f.notNull ∅ := by
    unfold unknownResult
    cases f.notNull <;> rfl
  have added : (Value.unknown ret f.notNull ∅).withMarks marks =
      .unknown ret f.notNull (∅ ∪ marks) := rfl
  rw [top, added, MarkSet.empty_union]

theorem collected_marks {args : List Value} {q : Prepared} (h : f.Prepares 0 args q) :
    Collected f args q.marks := by
  intro m
  rw [h.mem_marks]
  have taken : ∀ a p, m ∈ Param.taken p a ↔ p.allow.marked = false ∧ m ∈ a.allMarks := by
    intro a p
    unfold Param.taken
    split
    · next marked => simp [marked]
    · next unmarked => simp [unmarked]
  simp only [SomeArgument, taken]

theorem acceptedAll_args {args : List Value} {q : Prepared}
    (canonical : ∀ i p, f.paramFor i = some p → p.ty.Canonical) (h : f.Prepares 0 args q)
    (settled : q.deferred = false) (complete : q.shortCircuit = false) :
    AcceptedAll f args q.args := by
  refine ⟨h.length_eq, fun i a w ha hw => ?_⟩
  obtain ⟨p, hp, null, dynamicType, hconv⟩ := h.converted settled ha hw
  rw [Nat.zero_add] at hp
  have known : ¬ (a.isUnknown = true ∧ p.allow.unknown = false) := by
    intro unknown
    have short := (h.shortCircuit_iff settled).2 ⟨i, a, p, ha, by rwa [Nat.zero_add], unknown⟩
    rw [complete] at short
    cases short
  exact ⟨p, hp, accepted_of_convert (canonical i p hp) null dynamicType known hconv⟩

/-- A body sees only what its parameters take in. Either it is run once on a list of the same
    length, each argument converted for its parameter and in a state that the parameter takes, or
    the call ends without it in the same way for every body. -/
theorem body_sees_accepted (f : Function) (ctx : Context) (args : List Value)
    (canonical : ∀ i p, f.paramFor i = some p → p.ty.Canonical) :
    RunsOnce f ctx args ∨ RunsNever f ctx args := by
  have never : ∀ {outcome : Outcome Value}, Settled f args outcome →
      (∀ (m : Type → Type) [Monad m] (body : Context → List Value → Ty → m (Outcome Value)),
        f.callWith body ctx args = pure outcome) → RunsNever f ctx args := by
    intro outcome settled always
    refine ⟨outcome, settled, fun body => ?_, always⟩
    rw [← callWith_id]
    exact always Id body
  have planned := f.planned args
  generalize hplan : f.plan args = plan at planned
  generalize hret : f.returnType args = promised at planned
  cases planned with
  | failed e =>
    exact .inr (never (.failed hret) fun m _ body => by rw [callWith, hplan])
  | deferred prepares waits =>
    refine .inr (never (.deferred (collected_marks prepares) (prepares.deferred_iff.1 waits)) ?_)
    intro m _ body
    rw [callWith, hplan, ← dynamic_withMarks]
  | @unknown q ret prepares settled _ short =>
    have unknown := (prepares.shortCircuit_iff settled).1 short
    refine .inr (never (.unknown (collected_marks prepares) unknown hret) ?_)
    intro m _ body
    rw [callWith, hplan, ← unknownResult_withMarks]
  | @run q ret prepares settled _ complete =>
    refine .inl ⟨q.args, ret, q.marks, acceptedAll_args canonical prepares settled complete, hret,
      collected_marks prepares, fun body => ?_, fun m _ body => by rw [callWith, hplan]⟩
    rw [← callWith_id, callWith, hplan]
    rfl

def openHanded : Function where
  name := "open handed"
  params := [{ name := "name", ty := .string, allow := { marked := true } }]
  varParam := some { name := "lists", ty := .list .dynamic, allow := { null := true } }
  rule := .fixed .string
  body := fun _ args _ => .ok (args.getD 0 .dynamic)

theorem openHanded_sees_accepted :
    (∀ i p, openHanded.paramFor i = some p → p.ty.Canonical) ∧
    RunsOnce openHanded {} [(Value.bool true).withMark sensitiveMark,
      (Value.nullOf (.set .number)).withMark sensitiveMark] := by
  have canonical : ∀ i p, openHanded.paramFor i = some p → p.ty.Canonical := by
    intro i p hp
    cases i <;> cases hp <;> trivial
  refine ⟨canonical, (body_sees_accepted openHanded {} _ canonical).resolve_right ?_⟩
  rintro ⟨outcome, _, always, _⟩
  have fails := always fun _ _ _ => .error (.ofMessage "no")
  have runs := always fun _ _ _ => .ok (.string "yes")
  have failed : outcome.isOk = false := by
    rw [← fails]
    decide +kernel
  have succeeded : outcome.isOk = true := by
    rw [← runs]
    decide +kernel
  rw [failed] at succeeded
  cases succeeded

end MarkedValues.Function
