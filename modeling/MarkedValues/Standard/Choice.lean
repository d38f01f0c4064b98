import MarkedValues.Standard.Arguments

/-!
Functions that choose the first argument of some kind.
-/
namespace MarkedValues.Standard

/-- The first converted argument that is neither null nor an empty string; an unknown before it
    leaves the choice open. -/
def coalesceFrom (ret : Ty) : (i : Nat) → List Value → Outcome Value
  | _, [] => .error (.ofMessage "no non-null, non-empty-string arguments")
  | i, arg :: rest => do
    let v ← convertAt i arg ret
    if v.isUnknown then .ok (.unknownOf ret)
    else if v.isNull || v.string? == some "" then coalesceFrom ret (i + 1) rest
    else .ok v

def coalesceType : Resolver := fun args =>
  if args.isEmpty then .error (.ofMessage "at least one argument is required")
  else unifyArguments (numbered 0 (args.map Value.ty)) "all arguments must have the same type"

/-- The first argument that is neither null nor an empty string. -/
def coalesce : Function where
  name := "coalesce"
  varParam := some
    { name := "vals", ty := .dynamic,
      allow := { null := true, unknown := true, dynamicType := true } }
  rule := .resolved coalesceType
  body := fun _ args ret => coalesceFrom ret 0 args

/-- The first argument with elements, converted; an unknown before it leaves the choice open. -/
def coalescelistFrom (ret : Ty) : (i : Nat) → List Value → Outcome Value
  | _, [] => .error (.ofMessage "no non-null arguments")
  | i, arg :: rest =>
    if arg.isUnknown then .ok (.unknownOf ret)
    else if 0 < arg.elementCount?.getD 0 then convertAt i arg ret
    else coalescelistFrom ret (i + 1) rest

def coalescelistType : Resolver := fun args =>
  if args.isEmpty then .error (.ofMessage "at least one argument is required")
  else
    let misfit := (numbered 0 args).find? fun a =>
      !(a.2.ty.isDynamic || a.2.ty.isList || a.2.ty.isTuple)
    match misfit with
    | some (i, v) =>
      blame i ("coalescelist arguments must be lists or tuples, got " ++ v.ty.text)
    | none => .ok ((Ty.unify (args.map Value.ty)).getD .dynamic)

def coalescelist : Function where
  name := "coalescelist"
  varParam := some
    { name := "vals", ty := .dynamic, allow := { unknown := true, dynamicType := true } }
  rule := .resolved coalescelistType
  body := fun _ args ret => coalescelistFrom ret 0 args

end MarkedValues.Standard
