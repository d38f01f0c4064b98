import MarkedValues.Proofs.Call.MarkFlow
import MarkedValues.Proofs.Value.KeptMarks
import MarkedValues.Standard.Casts

/-!
Marks and the conversions by name. These take marked arguments as they are, so that no
mark is kept aside by the call; the conversion itself carries them, since no target asks
an object to drop a name.
-/
namespace MarkedValues.Standard

open Outcomes
open Ty (Keeps conversionType)

inductive CastTarget : Ty → Prop
  | string : CastTarget .string
  | number : CastTarget .number
  | bool : CastTarget .bool
  | list : CastTarget (.list .dynamic)
  | set : CastTarget (.set .dynamic)
  | map : CastTarget (.map .dynamic)

namespace CastTarget

variable {s t u v : Ty}

theorem canonical (h : CastTarget t) : t.Canonical := by
  cases h <;> trivial

theorem conversionType_dynamic (h : CastTarget t) : conversionType .dynamic t = some t := by
  cases h <;> simp [conversionType, Ty.isDynamic]

theorem flat (h : CastTarget t) (hu : conversionType s t = some u) :
    u.isTuple = false ∧ u.isObject = false := by
  have shape := Ty.conversionType_matches hu
  cases h with
  | string | number | bool =>
    cases shape
    exact ⟨rfl, rfl⟩
  | list | set | map =>
    obtain ⟨e, rfl, _⟩ := shape
    exact ⟨rfl, rfl⟩

theorem settled (h : CastTarget t) (hu : conversionType s t = some u)
    (hv : conversionType s u = some v) : v = u := by
  have again : t = u → v = u := by
    rintro rfl
    exact Option.some.inj (hv.symm.trans hu)
  cases h with
  | string | number | bool => exact again (Ty.conversionType_matches hu).symm
  | list =>
    obtain ⟨e, ⟨_, rfl⟩ | ⟨heq, _⟩, he⟩ := Ty.conversionType_sequence (.inl rfl) hu
    · obtain ⟨f, ⟨heq, rfl⟩ | ⟨heq, _⟩, hf⟩ := Ty.conversionType_sequence (.inl rfl) hv
      · rcases Ty.elementTarget_settled he hf with rfl | rfl
        · rfl
        · exact again rfl
      · cases heq
    · cases heq
  | set =>
    obtain ⟨e, ⟨heq, _⟩ | ⟨_, rfl⟩, he⟩ := Ty.conversionType_sequence (.inr rfl) hu
    · cases heq
    · obtain ⟨f, ⟨heq, _⟩ | ⟨heq, rfl⟩, hf⟩ := Ty.conversionType_sequence (.inr rfl) hv
      · cases heq
      · rcases Ty.elementTarget_settled he hf with rfl | rfl
        · rfl
        · exact again rfl
  | map =>
    obtain ⟨e, rfl, he⟩ := Ty.conversionType_map hu
    obtain ⟨f, rfl, hf⟩ := Ty.conversionType_map hv
    rcases Ty.elementTarget_settled he hf with rfl | rfl
    · rfl
    · exact again rfl

theorem keeps (h : CastTarget t) (settled : s ≠ .dynamic) (hu : conversionType s t = some u) :
    Keeps s u := by
  have nameless : t.isNameless = true := by
    cases h <;> rfl
  exact (Ty.keeps_of_isNameless nameless settled hu).conversionType hu

end CastTarget

variable {name : String} {target : Ty}

theorem receive_all {p : Param} (all : p.allow = .all) (open_ : p.ty = .dynamic) (i : Nat)
    (a : Value) : p.receive i a = .ok ⟨[a], ∅, false, false⟩ := by
  have strip : p.strip a = a := by simp [Param.strip, all, Allow.all]
  have taken : p.taken a = ∅ := by simp [Param.taken, all, Allow.all]
  have same : Value.convert a p.ty = .ok a := Value.convert_of_same (.inl open_)
  rw [Param.receive_eq, strip, taken, same]
  simp [all, Allow.all]

theorem call_all {f : Function} {p : Param} (params : f.params = [p]) (fixed : f.varParam = none)
    (all : p.allow = .all) (open_ : p.ty = .dynamic) (ctx : Context) (a : Value) :
    f.call ctx [a] = (f.resolveType [a] >>= fun ret => f.finish ret ∅ (f.body ctx [a] ret)) := by
  rw [Function.call_single params fixed, receive_all all open_]
  rfl

def castOutcome (a : Value) (ret : Ty) : Outcome Value :=
  match Value.convert a ret with
  | .ok w => .ok w
  | .error e => blame 0 (castMessage a ret e)

theorem call_cast (name : String) (target : Ty) (ctx : Context) (a : Value) :
    (cast name target).call ctx [a] = ((cast name target).resolveType [a] >>= fun ret =>
      (cast name target).finish ret ∅ (castOutcome a ret)) := by
  rw [call_all (p := { name := "v", ty := .dynamic, allow := .all }) rfl rfl rfl rfl]
  rfl

theorem resolveType_cast (h : CastTarget target) {args : List Value} {ret : Ty}
    (hret : (cast name target).resolveType args = .ok ret) :
    conversionType (argument args 0).ty target = some ret := by
  have run := mapError_eq_ok.1 hret
  simp only at run
  split at run
  · next open_ =>
    cases run
    rw [Ty.isDynamic_iff.1 open_]
    exact h.conversionType_dynamic
  · split at run
    · next t ht =>
      cases run
      exact ht
    · contradiction

theorem castMessage_erase (a : Value) (ret : Ty) (e : ConversionError) :
    castMessage a.erase ret e = castMessage a ret e := by
  unfold castMessage
  rw [Value.string?_erase, Value.ty_erase]

theorem castOutcome_erase (a : Value) (ret : Ty) :
    castOutcome a.erase ret = (castOutcome a ret).map Value.erase := by
  unfold castOutcome
  rw [Value.convert_erase]
  cases Value.convert a ret with
  | error e =>
    simp only [Except.map, castMessage_erase]
    rfl
  | ok w => rfl

theorem call_cast_erase (name : String) (target : Ty) (ctx : Context) (a : Value) :
    (cast name target).call ctx [a.erase] =
      ((cast name target).call ctx [a]).map Value.erase := by
  have types : (cast name target).resolveType [a.erase] = (cast name target).resolveType [a] := by
    have first : ∀ b : Value, argument [b] 0 = b := fun _ => rfl
    simp only [Function.resolveType, cast, first, Value.ty_erase]
  rw [call_cast, call_cast, types]
  cases (cast name target).resolveType [a] with
  | error e => rfl
  | ok ret =>
    simp only [bind, Except.bind]
    rw [castOutcome_erase, Function.finish_erase]

/-- A value whose type is not known has no parts that could be left out. -/
theorem allMarks_convert_of_dynamic {a w : Value} {t : Ty} (dynamic : a.ty = .dynamic)
    (h : Value.convert a t = .ok w) : w.allMarks = a.allMarks := by
  cases Value.converts_of_convert h with
  | same _ => rfl
  | null _ => rfl
  | unknown _ => rfl
  | @scalar s _ _ _ _ _ _ => cases s <;> cases dynamic
  | @list k _ _ _ _ _ _ _ => cases k <;> cases dynamic
  | @set k _ _ _ _ _ _ _ => cases k <;> cases dynamic
  | @tuple k _ _ _ _ _ _ _ => cases k <;> cases dynamic
  | @map k _ _ _ _ _ _ _ => cases k <;> cases dynamic
  | @object k _ _ _ _ _ _ _ _ => cases k <;> cases dynamic

theorem allMarks_call_cast (h : CastTarget target) {ctx : Context} {a v : Value}
    (wf : a.WellFormed) (hv : (cast name target).call ctx [a] = .ok v) :
    v.allMarks = a.allMarks := by
  rw [call_cast] at hv
  obtain ⟨ret, hret, hv⟩ := bind_eq_ok.1 hv
  obtain ⟨result, w, hresult, hw, rfl⟩ := Function.finish_eq_ok hv
  obtain ⟨_, u, hu, rfl⟩ := Function.conform_eq_ok hw
  have found : conversionType a.ty target = some ret := resolveType_cast h hret
  have converted : Value.convert a ret = .ok result := by
    unfold castOutcome at hresult
    split at hresult
    · next x hx =>
      cases hresult
      exact hx
    · cases hresult
  have flat := h.flat found
  have type : result.ty = ret :=
    h.settled found (Value.conversionType_of_convert flat.1 flat.2 converted)
  rw [Value.convert_of_same (.inr type)] at hu
  cases hu
  have kept : result.allMarks = a.allMarks := by
    by_cases dynamic : a.ty = .dynamic
    · exact allMarks_convert_of_dynamic dynamic converted
    · have canonical := Ty.canonical_conversionType wf.canonical h.canonical found
      exact Value.allMarks_convert wf canonical (h.keeps dynamic found) converted
  simpa [cast] using kept

/-- A conversion by name carries all marks, nested ones at their places. -/
theorem carriesMarks_cast (h : CastTarget target) (name : String) (ctx : Context)
    {args : List Value} (wf : ∀ a ∈ args, a.WellFormed) :
    (cast name target).CarriesMarks ctx args := by
  by_cases one : args.length = 1
  · obtain ⟨a, rfl⟩ := List.length_eq_one_iff.1 one
    apply Function.carriesMarks_of_erase (call_cast_erase name target ctx a)
    intro v hv
    rw [allMarks_call_cast h (wf a (by simp)) hv]
    exact (MarkSet.union_empty _).symm
  · have refused := Function.call_of_length_ne (f := cast name target) rfl rfl one ctx
    have erased : (args.map Value.erase).length ≠ 1 := by simpa using one
    have refused' := Function.call_of_length_ne (f := cast name target) rfl rfl erased ctx
    rw [List.length_map] at refused'
    exact .inl ⟨_, refused, refused'⟩

end MarkedValues.Standard
