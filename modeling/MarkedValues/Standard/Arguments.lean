import MarkedValues.Call.Plan

/-!
What the bodies of the standard functions share: reading arguments that the call has already
converted, and finding the common type of several arguments.
-/
namespace MarkedValues.Standard

/-- Argument `i`; the parameters see to it that there is one. -/
def argument (args : List Value) (i : Nat) : Value := args.getD i .dynamic

def textAt (args : List Value) (i : Nat) : Outcome String :=
  match args[i]?.bind Value.string? with
  | some s => .ok s
  | none => .error (.ofFault (.internal ("argument " ++ toString i ++ " is not a known string")))

def numberAt (args : List Value) (i : Nat) : Outcome Number :=
  match args[i]?.bind Value.number? with
  | some n => .ok n
  | none => .error (.ofFault (.internal ("argument " ++ toString i ++ " is not a known number")))

/-- A number argument that must be whole. -/
def wholeAt (args : List Value) (i : Nat) : Outcome Int := do
  let n ← numberAt args i
  match n.toInt? with
  | some k => .ok k
  | none => blame i (n.text ++ " is not a whole number")

/-- A conversion whose failure is blamed on argument `i`. -/
def convertAt (i : Nat) (v : Value) (t : Ty) : Outcome Value :=
  (Value.convert v t).mapError fun e => (CallError.ofConversion e).atArgument i

/-- The first type that cannot join those before it: their common type, its place and itself. -/
def firstMisfit : (before : List Ty) → List (Nat × Ty) → Option (Ty × Nat × Ty)
  | _, [] => none
  | before, (i, t) :: rest =>
    if (Ty.unify (before ++ [t])).isSome then firstMisfit (before ++ [t]) rest
    else some ((Ty.unify before).getD (before.headD .dynamic), i, t)

/-- The common type of arguments, each with its place. The first that does not fit is blamed. -/
def unifyArguments (types : List (Nat × Ty)) (what : String) : Outcome Ty :=
  match Ty.unify (types.map Prod.snd) with
  | some t => .ok t
  | none =>
    match firstMisfit ((types.take 1).map Prod.snd) (types.drop 1) with
    | some (common, i, t) =>
      .error ⟨.typeUnification (what ++ ": " ++ common.text ++ " and " ++ t.text ++
        " are incompatible"), some i, none⟩
    | none => .error (.ofFault (.typeUnification what))

def numbered {α : Type} (i : Nat) : List α → List (Nat × α)
  | [] => []
  | a :: as => (i, a) :: numbered (i + 1) as

def typeOfFirst : Resolver := fun args => .ok (argument args 0).ty

end MarkedValues.Standard
