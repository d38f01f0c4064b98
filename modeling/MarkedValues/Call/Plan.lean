import MarkedValues.Call.Function

/-!
Calling a function. Its parameters are applied to the arguments one by one: null where it is not
allowed is refused, marks that are not allowed are taken off and kept aside, an argument of dynamic
type defers the call, every other is converted, and an unknown that is not allowed makes the result
unknown. What is left to do is a `Plan`; only a plan to run reaches the body, and whatever the plan,
the marks kept aside end on the result.
-/
namespace MarkedValues

structure Prepared where
  args : List Value
  /-- Marks taken off the arguments. -/
  marks : MarkSet
  /-- Some argument is unknown where unknowns are not taken. -/
  shortCircuit : Bool
  /-- The type of some argument is not known yet. -/
  deferred : Bool

/-- What a call comes down to. -/
inductive Plan where
  | defer (marks : MarkSet)
  | unknown (ret : Ty) (marks : MarkSet)
  | run (args : List Value) (ret : Ty) (marks : MarkSet)

def Param.receive (p : Param) (i : Nat) (arg : Value) : Outcome Prepared :=
  if arg.isNull && !p.allow.null then
    .error ((CallError.mustNotBeNull.atArgument i).atParameter p.name)
  else
    let plain := if p.allow.marked then arg else arg.erase
    let marks := if p.allow.marked then ∅ else arg.allMarks
    if plain.ty.isDynamic && !p.allow.dynamicType then .ok ⟨[plain], marks, false, true⟩
    else match Value.convert plain p.ty with
    | .error e => .error (((CallError.ofConversion e).atArgument i).atParameter p.name)
    | .ok v => .ok ⟨[v], marks, v.isUnknown && !p.allow.unknown, false⟩

namespace Prepared

def nothing : Prepared := ⟨[], ∅, false, false⟩

def append (p q : Prepared) : Prepared :=
  ⟨p.args ++ q.args, p.marks ∪ q.marks, p.shortCircuit || q.shortCircuit, p.deferred || q.deferred⟩

end Prepared

namespace Function

def countText (n : Nat) : String := if n = 1 then "1 argument" else toString n ++ " arguments"

def arityFault? (f : Function) (got : Nat) : Option CallFault :=
  let least := f.params.length
  if f.varParam.isSome then
    if got < least then some (.arity f.name ("at least " ++ countText least) got) else none
  else if got = least then none
  else some (.arity f.name (countText least) got)

/-- Applies the parameters to the arguments from place `i` on. -/
def prepareFrom (f : Function) : (i : Nat) → List Value → Outcome Prepared
  | _, [] => .ok .nothing
  | i, arg :: rest =>
    match f.paramFor i with
    | none => .error (.ofFault (.internal (f.name ++ ": no parameter for argument " ++ toString i)))
    | some p => do
      let first ← p.receive i arg
      let others ← f.prepareFrom (i + 1) rest
      .ok (first.append others)

def prepare (f : Function) (args : List Value) : Outcome Prepared :=
  match f.arityFault? args.length with
  | some fault => .error (.ofFault fault)
  | none => f.prepareFrom 0 args

/-- Names the parameter of the argument that an error blames. -/
def annotate (f : Function) (e : CallError) : CallError :=
  match e.argument?.bind f.paramFor with
  | some p => e.atParameter p.name
  | none => e

def resolveType (f : Function) (args : List Value) : Outcome Ty :=
  match f.rule with
  | .fixed t => .ok t
  | .resolved resolve => (resolve args).mapError f.annotate

/-- The type of the result for these arguments; `dynamic` for a deferred call. -/
def returnType (f : Function) (args : List Value) : Outcome Ty := do
  let p ← f.prepare args
  if p.deferred then .ok .dynamic else f.resolveType p.args

/-- What remains to be done once the arguments are prepared. -/
def plan (f : Function) (args : List Value) : Outcome Plan := do
  let p ← f.prepare args
  if p.deferred then .ok (.defer p.marks)
  else
    let ret ← f.resolveType p.args
    if p.shortCircuit then .ok (.unknown ret p.marks) else .ok (.run p.args ret p.marks)

def unknownResult (f : Function) (ret : Ty) : Value :=
  if f.notNull then (Value.unknownOf ret).refineNotNull else Value.unknownOf ret

/-- The body's result brought to the type it was promised to have. -/
def conform (f : Function) (result : Value) (ret : Ty) : Outcome Value :=
  if f.notNull && result.isNull then .error (.ofFault (.internal (f.name ++ " returned null")))
  else
    match Value.convert result ret with
    | .error e => .error (.ofFault (.internal (f.name ++ " returned " ++ result.ty.text ++
        " where " ++ ret.text ++ " was declared: " ++ e.message)))
    | .ok v => .ok (if f.notNull then v.refineNotNull else v)

def call (f : Function) (ctx : Context) (args : List Value) : Outcome Value := do
  match ← f.plan args with
  | .defer marks => .ok (Value.dynamic.withMarks marks)
  | .unknown ret marks => .ok ((f.unknownResult ret).withMarks marks)
  | .run args ret marks =>
    let result ← (f.body ctx args ret).mapError f.annotate
    let v ← f.conform result ret
    .ok (v.withMarks marks)

end Function

end MarkedValues
