import MarkedValues.Proofs.Call.Soundness
import MarkedValues.Proofs.Standard.Passing
import MarkedValues.Proofs.Standard.Scanning
import MarkedValues.Proofs.Value.SetAlgebra

/-!
Calls of the set functions with known sets. Such a call converts the sets to the set type that the
rule finds and combines their elements from left to right; what the operations do to members, to
order and to repeats then holds of the calls.
-/
namespace MarkedValues

open Outcomes

variable {engine : Regex.Engine}

namespace Standard

open Value (SetContent normalize memberOf)

/-- A known set of the element type, as values are built. -/
structure IsSet (e : Ty) (v : Value) : Prop where
  shape : ∃ es m, v = .sequence (.set e) es m
  built : v.WellFormed
  canonical : v.Canonical

namespace IsSet

variable {e : Ty} {v : Value}

theorem ty (h : IsSet e v) : v.ty = .set e := by
  obtain ⟨_, _, rfl⟩ := h.shape
  rfl

theorem isNull (h : IsSet e v) : v.isNull = false := by
  obtain ⟨_, _, rfl⟩ := h.shape
  rfl

theorem isUnknown (h : IsSet e v) : v.isUnknown = false := by
  obtain ⟨_, _, rfl⟩ := h.shape
  rfl

theorem content (h : IsSet e v) : SetContent v.elements := by
  obtain ⟨_, _, rfl⟩ := h.shape
  cases h.canonical with
  | sequence content _ => exact content e rfl

theorem erase (h : IsSet e v) : IsSet e v.erase := by
  obtain ⟨_, _, rfl⟩ := h.shape
  exact ⟨⟨_, _, rfl⟩, h.built.erase, h.canonical.erase⟩

theorem canonical_elem (h : IsSet e v) : e.Canonical := by
  obtain ⟨_, _, rfl⟩ := h.shape
  cases h.built with
  | set canonical _ _ => exact canonical

theorem of_mem (h : IsSet e v) : ∀ u ∈ v.elements, Ty.Matches u.ty e ∧ u.WellFormed ∧ u.Canonical := by
  obtain ⟨_, _, rfl⟩ := h.shape
  have canonical := canonical_elements h.canonical
  cases h.built with
  | set _ typed parts => exact fun u hu => ⟨typed u hu, parts u hu, canonical u hu⟩

theorem convert (h : IsSet e v) : Value.convert v (.set .dynamic) = .ok v := by
  have typed : Ty.Matches v.ty (.set .dynamic) := h.ty ▸ ⟨e, rfl, trivial⟩
  have target : (Ty.set .dynamic).Canonical := trivial
  obtain ⟨w, hw, same⟩ := Value.fixed_of_matches h.built target typed
  rw [hw, same h.canonical]

end IsSet

/-- The elements that an argument brings to a set of the given type. -/
def Brings (ret : Ty) (a : Value) (E : List Value) : Prop :=
  ∃ w, Value.convert a ret = .ok w ∧ w.elements = E

theorem IsSet.shape_of_convert {e t : Ty} {a w : Value} (h : IsSet e a)
    (hw : Value.convert a (.set t) = .ok w) : ∃ u es m, w = .sequence (.set u) es m := by
  obtain ⟨es, m, rfl⟩ := h.shape
  cases Value.converts_of_convert hw with
  | same _ => exact ⟨e, es, m, rfl⟩
  | set _ _ => exact ⟨_, _, _, rfl⟩
  | list hu _ =>
    obtain ⟨_, made, _⟩ := Ty.conversionType_sequence (.inr rfl) hu
    simp at made
  | tuple hu _ =>
    obtain ⟨_, made, _⟩ := Ty.conversionType_sequence (.inr rfl) hu
    simp at made

theorem IsSet.brings_erase {e t : Ty} {a : Value} (h : IsSet e a) {E : List Value} :
    Brings (.set t) a.erase E ↔ Brings (.set t) a E := by
  have unmarked : ∀ w, Value.convert a (.set t) = .ok w → w.elements.map Value.erase = w.elements := by
    intro w hw
    obtain ⟨_, _, _, rfl⟩ := h.shape_of_convert hw
    cases h.canonical.convert hw with
    | sequence content _ => exact (content _ rfl).erase_parts
  unfold Brings
  rw [Value.convert_erase]
  cases hw : Value.convert a (.set t) with
  | error e => simp [Except.map]
  | ok w => simp [Except.map, unmarked w hw]

def combined (op : SetOperation) : List (List Value) → List Value
  | [] => []
  | first :: rest => rest.foldl op first

theorem mem_foldl {op : SetOperation} (selects : Selects op) {first : List Value}
    {rest : List (List Value)} {v : Value} (h : v ∈ rest.foldl op first) :
    v ∈ first ∨ ∃ E ∈ rest, v ∈ E := by
  induction rest generalizing first with
  | nil => exact .inl h
  | cons E rest ih =>
    rcases ih h with before | ⟨F, hF, later⟩
    · exact (selects first E v before).imp_right fun here => ⟨E, by simp, here⟩
    · exact .inr ⟨F, by simp [hF], later⟩

theorem mem_combined {op : SetOperation} (selects : Selects op) {Es : List (List Value)} {v : Value}
    (h : v ∈ combined op Es) : ∃ E ∈ Es, v ∈ E := by
  cases Es with
  | nil => cases h
  | cons first rest =>
    rcases mem_foldl selects h with here | ⟨E, hE, later⟩
    · exact ⟨first, by simp, here⟩
    · exact ⟨E, by simp [hE], later⟩

theorem forall₂_brings_erase {args : List Value} (sets : ∀ a ∈ args, ∃ e, IsSet e a) {t : Ty}
    {Es : List (List Value)} : List.Forall₂ (Brings (.set t)) (args.map Value.erase) Es ↔
      List.Forall₂ (Brings (.set t)) args Es := by
  have each : ∀ a ∈ args, ∀ E, Brings (.set t) a.erase E ↔ Brings (.set t) a E := by
    intro a ha E
    obtain ⟨e, isSet⟩ := sets a ha
    exact isSet.brings_erase
  rw [List.forall₂_map_left_iff]
  exact ⟨Lists.forall₂_imp_left fun a ha E => (each a ha E).1,
    Lists.forall₂_imp_left fun a ha E => (each a ha E).2⟩

theorem unmarked_combined {op : SetOperation} (selects : Selects op) {ret : Ty} {args : List Value}
    (clean : ∀ a ∈ args, a.Unmarked) {Es : List (List Value)}
    (brings : List.Forall₂ (Brings ret) args Es) : ∀ v ∈ combined op Es, v.Unmarked := by
  intro v hv
  obtain ⟨E, hE, mem⟩ := mem_combined selects hv
  obtain ⟨a, ha, w, hw, rfl⟩ := Lists.exists_of_mem_right brings hE
  exact ((clean a ha).convert hw).elements v mem

def GoesOn (bearsUnknown : Bool) (w : Value) : Prop :=
  (w.isUnknown || (!bearsUnknown && !w.isWhollyKnown)) = false

theorem goesOn_erase {bearsUnknown : Bool} {args : List Value}
    (sets : ∀ a ∈ args, ∃ e, IsSet e a)
    (complete : bearsUnknown = true ∨ ∀ a ∈ args, a.isWhollyKnown = true) {ret : Ty} :
    ∀ a ∈ args.map Value.erase, ∀ w, Value.convert a ret = .ok w → GoesOn bearsUnknown w := by
  refine List.forall_mem_map.2 fun a ha w hw => ?_
  obtain ⟨e, isSet⟩ := sets a ha
  rw [GoesOn, Value.isUnknown_convert hw, isSet.erase.isUnknown, Bool.false_or]
  rcases complete with bears | whole
  · rw [bears]
    rfl
  · have erased := (Value.Completes.isWhollyKnown_erase a).trans (whole a ha)
    rw [Value.isWhollyKnown_convert erased hw, Bool.not_true, Bool.and_false]

theorem combineFrom_eq_ok {op : SetOperation} {bearsUnknown : Bool} {ret : Ty} {args : List Value}
    (goesOn : ∀ a ∈ args, ∀ w, Value.convert a ret = .ok w → GoesOn bearsUnknown w)
    (i : Nat) (acc : Option (List Value)) {r : Option (List Value)} :
    combineFrom ret op bearsUnknown i acc args = .ok r ↔ ∃ Es, List.Forall₂ (Brings ret) args Es ∧
      r = some (acc.elim (combined op Es) fun before => Es.foldl op before) := by
  -- What has been combined so far is generalized: nothing before the first set, elements
  -- afterwards.
  induction args generalizing i acc with
  | nil =>
    simp only [combineFrom, Except.ok.injEq, List.forall₂_nil_left_iff, exists_eq_left]
    cases acc <;> exact eq_comm
  | cons a args ih =>
    have later := ih fun b hb => goesOn b (List.mem_cons_of_mem a hb)
    have here : ∀ w, Value.convert a ret = .ok w →
        ¬ (w.isUnknown || (!bearsUnknown && !w.isWhollyKnown)) = true :=
      fun w hw => Bool.eq_false_iff.1 (goesOn a (by simp) w hw)
    simp only [combineFrom, bind_eq_ok, convertAt, mapError_eq_ok, List.forall₂_cons_left_iff]
    constructor
    · rintro ⟨w, hw, h⟩
      rw [if_neg (here w hw)] at h
      obtain ⟨Es, brings, rfl⟩ := (later _ _).1 h
      refine ⟨w.elements :: Es, ⟨_, _, ⟨w, hw, rfl⟩, brings, rfl⟩, ?_⟩
      cases acc <;> rfl
    · rintro ⟨_, ⟨_, Es, ⟨w, hw, rfl⟩, brings, rfl⟩, rfl⟩
      refine ⟨w, hw, ?_⟩
      rw [if_neg (here w hw)]
      refine (later _ _).2 ⟨Es, brings, ?_⟩
      cases acc <;> rfl

theorem setBody_eq_ok {op : SetOperation} {bearsUnknown : Bool} {ctx : Context} {ret : Ty}
    {args : List Value} {v : Value}
    (goesOn : ∀ a ∈ args, ∀ w, Value.convert a ret = .ok w → GoesOn bearsUnknown w) :
    setBody op bearsUnknown ctx args ret = .ok v ↔ ∃ Es, List.Forall₂ (Brings ret) args Es ∧
      v = .set ret.elementType (combined op Es) := by
  simp only [setBody, bind_eq_ok, combineFrom_eq_ok goesOn]
  constructor
  · rintro ⟨_, ⟨Es, brings, rfl⟩, h⟩
    exact ⟨Es, brings, (Except.ok.inj h).symm⟩
  · rintro ⟨Es, brings, rfl⟩
    exact ⟨_, ⟨Es, brings, rfl⟩, rfl⟩

theorem exists_setType {args : List Value} {ret : Ty} (h : setOperationType args = .ok ret) :
    ∃ t, ret = .set t := by
  rcases setOperationType_eq_ok.1 h with ⟨_, rfl⟩ | ⟨t, _, rfl⟩
  · exact ⟨_, rfl⟩
  · exact ⟨_, rfl⟩

structure SetOperator (f : Function) (op : SetOperation) (bearsUnknown : Bool) : Prop where
  takesSome : 0 < f.params.length
  params : f.everyParam (fun p => decide (p = setParam p.name)) = true
  rule : f.rule = .resolved setOperationType
  body : f.body = setBody op bearsUnknown
  selects : Selects op

theorem setFunction_operator (name : String) {op : SetOperation} (selects : Selects op)
    (bearsUnknown : Bool) : SetOperator (setFunction name op bearsUnknown) op bearsUnknown :=
  ⟨Nat.zero_lt_one, rfl, rfl, rfl, selects⟩

theorem setsubtract_operator : SetOperator setsubtract Value.subtract false :=
  ⟨Nat.zero_lt_two, rfl, rfl, rfl, subtract_selects⟩

section

variable {f : Function} {op : SetOperation} {bearsUnknown : Bool}
  (operator : SetOperator f op bearsUnknown)

include operator

theorem SetOperator.paramFor {i : Nat} {p : Param} (h : f.paramFor i = some p) :
    p = setParam p.name :=
  of_decide_eq_true (Function.check_of_everyParam operator.params h)

variable {args : List Value} (sets : ∀ a ∈ args, ∃ e, IsSet e a)

include sets

theorem SetOperator.prepares {i : Nat}
    (params : ∀ j < args.length, ∃ p, f.paramFor (i + j) = some p) :
    f.Prepares i args ⟨args.map Value.erase, Value.marksOfAll args, false, false⟩ := by
  induction args generalizing i with
  | nil => exact .nil i
  | cons a args ih =>
    obtain ⟨p, hp⟩ := params 0 (by simp)
    obtain ⟨e, isSet⟩ := sets a (by simp)
    have later := ih (fun b hb => sets b (by simp [hb])) fun j hj => by
      have next := params (j + 1) (by simpa using hj)
      rwa [← Nat.add_assoc, Nat.add_right_comm] at next
    have param := operator.paramFor hp
    have plain : p.allow.marked = false := by rw [param]; rfl
    have type : p.ty = .set .dynamic := by rw [param]; rfl
    have stripped : p.strip a = a.erase := by simp [Param.strip, plain]
    have taken : p.taken a = a.allMarks := by simp [Param.taken, plain]
    have fixed : Value.convert (p.strip a) p.ty = .ok a.erase := by
      rw [stripped, type]
      exact isSet.erase.convert
    have first := Param.Receives.converted (p := p) (by simp [isSet.isNull]) (by simp [isSet.ty]) fixed
    rw [taken, isSet.erase.isUnknown] at first
    exact .cons hp first later

variable (arity : f.arityFault? args.length = none)

include arity

theorem SetOperator.prepare :
    f.prepare args = .ok ⟨args.map Value.erase, Value.marksOfAll args, false, false⟩ := by
  rw [Function.prepare, arity]
  refine Function.prepareFrom_of_prepares (operator.prepares sets fun j hj => ?_)
  rw [Nat.zero_add]
  exact Function.exists_paramFor arity hj

theorem SetOperator.returnType_eq_ok {ret : Ty} :
    f.returnType args = .ok ret ↔ setOperationType (args.map Value.erase) = .ok ret := by
  rw [Function.returnType, operator.prepare sets arity]
  simp only [bind, Except.bind, Bool.false_eq_true, if_false, Function.resolveType, operator.rule,
    mapError_eq_ok]

theorem SetOperator.call_eq (ctx : Context) :
    f.call ctx args = f.resolveType (args.map Value.erase) >>= fun ret =>
      f.finish ret (Value.marksOfAll args)
        (setBody op bearsUnknown ctx (args.map Value.erase) ret) := by
  rw [Function.call_of_prepare (operator.prepare sets arity), operator.body]
  rfl

/-- A call with known sets gives the set of their elements, combined. -/
theorem SetOperator.call_eq_ok {ctx : Context} {v : Value}
    (complete : bearsUnknown = true ∨ ∀ a ∈ args, a.isWhollyKnown = true) :
    f.call ctx args = .ok v ↔ ∃ ret Es, f.returnType args = .ok ret ∧
      List.Forall₂ (Brings ret) args Es ∧
      v = .sequence (.set ret.elementType) (normalize (combined op Es)) (Value.marksOfAll args) := by
  have plain : ∀ a ∈ args.map Value.erase, a.Unmarked :=
    List.forall_mem_map.2 fun a _ => Value.unmarked_erase a
  have resolved : ∀ ret, f.resolveType (args.map Value.erase) = .ok ret ↔
      f.returnType args = .ok ret := fun ret => by
    rw [operator.returnType_eq_ok sets arity, Function.resolveType, operator.rule]
    exact mapError_eq_ok
  simp only [operator.call_eq sets arity, bind_eq_ok, resolved]
  refine exists_congr fun ret => ?_
  rw [exists_and_left]
  refine and_congr_right fun hret => ?_
  obtain ⟨t, rfl⟩ := exists_setType ((operator.returnType_eq_ok sets arity).1 hret)
  have goes : ∀ a ∈ args.map Value.erase, ∀ w, Value.convert a (.set t) = .ok w →
      GoesOn bearsUnknown w := goesOn_erase sets complete
  -- The set is of the promised type already, so that only the marks are put on it.
  have finished : ∀ us : List Value, f.finish (.set t) (Value.marksOfAll args) (.ok (.set t us)) =
      .ok ((Value.set t us).withMarks (Value.marksOfAll args)) := fun us => by
    have kept : f.conform (Value.set t us) (.set t) = .ok (Value.set t us) :=
      Function.conform_of_ty rfl rfl rfl
    simp only [Function.finish, bind, Except.bind, Except.mapError, kept]
  constructor
  · intro h
    obtain ⟨result, _, hresult, _, _⟩ := Function.finish_eq_ok h
    obtain ⟨Es, brings, rfl⟩ := (setBody_eq_ok goes).1 hresult
    refine ⟨Es, (forall₂_brings_erase sets).1 brings, ?_⟩
    rw [hresult] at h
    rw [← Value.set_withMarks (unmarked_combined operator.selects plain brings)]
    exact (Except.ok.inj ((finished _).symm.trans h)).symm
  · rintro ⟨Es, brings, rfl⟩
    have erased := (forall₂_brings_erase sets).2 brings
    rw [(setBody_eq_ok goes).2 ⟨Es, erased, rfl⟩,
      ← Value.set_withMarks (unmarked_combined operator.selects plain erased)]
    exact finished _

end

theorem mem_elementTypes {args : List Value} {t : Ty} (h : t ∈ elementTypes args) :
    ∃ a ∈ args, a.ty.elementType = t := by
  obtain ⟨a, ha, type⟩ := List.mem_filterMap.1 h
  split at type
  · cases type
  · exact ⟨a, ha, Option.some.inj type⟩

theorem setOperationType_of_one {args : List Value} {e : Ty} (some_ : args ≠ [])
    (types : ∀ a ∈ args, a.ty = .set e) : setOperationType args = .ok (.set e) := by
  have one : ∀ t ∈ elementTypes args, t = e := by
    intro t ht
    obtain ⟨a, ha, rfl⟩ := mem_elementTypes ht
    rw [types a ha]
    rfl
  rw [setOperationType_eq_ok]
  by_cases none : elementTypes args = []
  · obtain ⟨a, rest, rfl⟩ := List.exists_cons_of_ne_nil some_
    have literal : isEmptyLiteral a = true := by
      by_contra filled
      rw [elementTypes_cons, if_neg filled] at none
      cases none
    rw [isEmptyLiteral, types a (by simp), Bool.and_eq_true, Ty.isDynamic_iff] at literal
    exact .inl ⟨none, congrArg Ty.set literal.1⟩
  · exact .inr ⟨e, Ty.unify_of_forall_eq none one, rfl⟩

section

variable {f : Function} {op : SetOperation} {bearsUnknown : Bool}
  (operator : SetOperator f op bearsUnknown) {args : List Value} {e : Ty}
  (sets : ∀ a ∈ args, IsSet e a) (arity : f.arityFault? args.length = none)

include operator sets arity

theorem SetOperator.call_of_one (ctx : Context)
    (complete : bearsUnknown = true ∨ ∀ a ∈ args, a.isWhollyKnown = true) :
    f.call ctx args = .ok (.sequence (.set e) (normalize (combined op (args.map Value.elements)))
      (Value.marksOfAll args)) := by
  have some_ : ∀ a ∈ args, ∃ e, IsSet e a := fun a ha => ⟨e, sets a ha⟩
  refine (operator.call_eq_ok some_ arity complete).2 ⟨.set e, _, ?_, ?_, rfl⟩
  · refine (operator.returnType_eq_ok some_ arity).2 (setOperationType_of_one ?_ ?_)
    · have least := Nat.lt_of_lt_of_le operator.takesSome (Function.params_length_le arity)
      rw [← List.length_map (f := Value.erase)] at least
      exact List.ne_nil_of_length_pos least
    · exact List.forall_mem_map.2 fun a ha => (sets a ha).erase.ty
  · rw [List.forall₂_map_right_iff, List.forall₂_same]
    exact fun a ha => ⟨a, Value.convert_of_same (.inr (sets a ha).ty), rfl⟩

end

theorem isSet_combined {op : SetOperation} (selects : Selects op) {args : List Value} {e : Ty}
    (sets : ∀ a ∈ args, IsSet e a) (canonical : e.Canonical) (m : MarkSet) :
    IsSet e (.sequence (.set e) (normalize (combined op (args.map Value.elements))) m) := by
  have origin : ∀ v ∈ combined op (args.map Value.elements), ∃ a ∈ args, v ∈ a.elements := by
    intro v hv
    obtain ⟨E, hE, mem⟩ := mem_combined selects hv
    obtain ⟨a, ha, rfl⟩ := List.mem_map.1 hE
    exact ⟨a, ha, mem⟩
  have parts : ∀ v ∈ combined op (args.map Value.elements),
      Ty.Matches v.ty e ∧ v.WellFormed ∧ v.Canonical := by
    intro v hv
    obtain ⟨a, ha, mem⟩ := origin v hv
    exact (sets a ha).of_mem v mem
  have unmarked : ∀ v ∈ combined op (args.map Value.elements), v.Unmarked := by
    intro v hv
    obtain ⟨a, ha, mem⟩ := origin v hv
    exact (sets a ha).content.unmarked v mem
  rw [← Value.set_withMarks unmarked]
  refine ⟨⟨_, _, rfl⟩, ?_, ?_⟩
  · exact (Value.wellFormed_set canonical (fun v hv => (parts v hv).1)
      fun v hv => (parts v hv).2.1).withMarks m
  · exact (Value.canonical_set fun v hv => (parts v hv).2.2).withMarks m

def InFirstOnly (Es : List (List Value)) (x : Value) : Prop :=
  memberOf (Es.headD []) x = true ∧ ∀ E ∈ Es.tail, memberOf E x = false

/-- Which values are to be members of the result of a set function, by the elements of
    the sets it is given. -/
inductive SetLaw : String → (List (List Value) → Value → Prop) → Prop
  | union : SetLaw "setunion" fun Es x => ∃ E ∈ Es, memberOf E x = true
  | intersection : SetLaw "setintersection" fun Es x => ∀ E ∈ Es, memberOf E x = true
  | subtract : SetLaw "setsubtract" InFirstOnly
  | compliment : SetLaw "compliment" InFirstOnly
  | symmetricDifference : SetLaw "setsymmetricdifference" fun Es x => Odd (Es.countP (memberOf · x))

/-- The operation keeps the law whatever sets are combined. -/
def KeepsLaw (op : SetOperation) (law : List (List Value) → Value → Prop) : Prop :=
  ∀ first rest x, memberOf (rest.foldl op first) x = true ↔ law (first :: rest) x

theorem union_keepsLaw : KeepsLaw Value.union fun Es x => ∃ E ∈ Es, memberOf E x = true := by
  intro first rest x
  rw [Value.memberOf_foldl_union, List.any_eq_true]

theorem intersection_keepsLaw :
    KeepsLaw Value.intersection fun Es x => ∀ E ∈ Es, memberOf E x = true := by
  intro first rest x
  rw [Value.memberOf_foldl_intersection, List.all_eq_true]

theorem subtract_keepsLaw : KeepsLaw Value.subtract InFirstOnly := by
  intro first rest x
  simp [Value.memberOf_foldl_subtract, InFirstOnly]

theorem symmetricDifference_keepsLaw :
    KeepsLaw Value.symmetricDifference fun Es x => Odd (Es.countP (memberOf · x)) :=
  Value.memberOf_foldl_symmetricDifference

theorem members_of_call {f : Function} {op : SetOperation} {bearsUnknown : Bool}
    (operator : SetOperator f op bearsUnknown) {law : List (List Value) → Value → Prop}
    (keeps : KeepsLaw op law) {ctx : Context} {args : List Value} {v : Value}
    (sets : ∀ a ∈ args, ∃ e, IsSet e a) (whole : ∀ a ∈ args, a.isWhollyKnown = true)
    (h : f.call ctx args = .ok v) :
    ∃ e Es es m, f.returnType args = .ok (.set e) ∧ List.Forall₂ (Brings (.set e)) args Es ∧
      v = .sequence (.set e) es m ∧ ∀ x, memberOf es x = true ↔ law Es x := by
  cases arity : f.arityFault? args.length with
  | some fault =>
    rw [Function.call_of_arityFault arity] at h
    cases h
  | none =>
    obtain ⟨ret, Es, hret, brings, rfl⟩ := (operator.call_eq_ok sets arity (.inr whole)).1 h
    obtain ⟨e, rfl⟩ := exists_setType ((operator.returnType_eq_ok sets arity).1 hret)
    refine ⟨e, Es, _, _, hret, brings, rfl, fun x => ?_⟩
    rw [Value.memberOf_normalize]
    -- Without a first set there is no call.
    cases brings with
    | nil => exact absurd operator.takesSome (Nat.not_lt.2 (Function.params_length_le arity))
    | cons _ _ => exact keeps _ _ x

end Standard

open Standard

/-- The members of what a set function gives for wholly known sets are those its law names. -/
theorem standardTable_set_members {name : String} {law : List (List Value) → Value → Prop}
    (named : SetLaw name law) {f : Function} (found : (table engine).get? name = some f)
    {ctx : Context} {args : List Value} {v : Value} (sets : ∀ a ∈ args, ∃ e, IsSet e a)
    (whole : ∀ a ∈ args, a.isWhollyKnown = true)
    (h : (table engine).call ctx name args = .ok v) :
    ∃ e Es es m, f.returnType args = .ok (.set e) ∧ List.Forall₂ (Brings (.set e)) args Es ∧
      v = .sequence (.set e) es m ∧ ∀ x, Value.memberOf es x = true ↔ law Es x := by
  have called : f.call ctx args = .ok v := by
    rwa [FunctionTable.call, found] at h
  cases named with
  | union =>
    cases found.symm.trans (standardTable_get? setunion rfl)
    exact members_of_call (setFunction_operator _ union_selects true) union_keepsLaw sets whole called
  | intersection =>
    cases found.symm.trans (standardTable_get? setintersection rfl)
    exact members_of_call (setFunction_operator _ intersection_selects false) intersection_keepsLaw
      sets whole called
  | subtract =>
    cases found.symm.trans (standardTable_get? setsubtract rfl)
    exact members_of_call setsubtract_operator subtract_keepsLaw sets whole called
  | compliment =>
    cases found.symm.trans (standardTable_get? compliment rfl)
    exact members_of_call (setFunction_operator _ subtract_selects false) subtract_keepsLaw
      sets whole called
  | symmetricDifference =>
    cases found.symm.trans (standardTable_get? setsymmetricdifference rfl)
    exact members_of_call (setFunction_operator _ symmetricDifference_selects false)
      symmetricDifference_keepsLaw sets whole called

def belowZero : Value := .sequence (.set .number) [.number .negativeZero, .number .nan] ∅

def aboveZero : Value := .sequence (.set .number) [.number .zero, .number .nan] ∅

theorem isSet_of_numbers (ns : List Number)
    (normal : Value.normalize (ns.map Value.number) = ns.map Value.number) :
    IsSet .number (.sequence (.set .number) (ns.map Value.number) ∅) := by
  refine ⟨⟨_, _, rfl⟩, .set trivial ?_ ?_, .sequence (fun e _ => ⟨?_, normal⟩) ?_⟩
  · exact List.forall_mem_map.2 fun n _ => rfl
  · exact List.forall_mem_map.2 fun n _ => .scalar
  · exact List.forall_mem_map.2 fun n _ => rfl
  · exact List.forall_mem_map.2 fun n _ => .scalar

theorem isSet_belowZero : IsSet .number belowZero :=
  isSet_of_numbers [.negativeZero, .nan] rfl

theorem isSet_aboveZero : IsSet .number aboveZero :=
  isSet_of_numbers [.zero, .nan] rfl

/-- The union keeps one of the zeros, which stands for both, and the NaN of either set. -/
theorem zeros_in_union :
    (∀ a ∈ [belowZero, aboveZero], ∃ e, IsSet e a) ∧
      (∀ a ∈ [belowZero, aboveZero], a.isWhollyKnown = true) ∧
      standardTable.call {} "setunion" [belowZero, aboveZero] =
        .ok (.sequence (.set .number) [.number .negativeZero, .number .nan, .number .nan] ∅) ∧
      ∀ x, Value.memberOf [.number .negativeZero, .number .nan, .number .nan] x = true ↔
        ∃ E ∈ [belowZero.elements, aboveZero.elements], Value.memberOf E x = true := by
  have sets : ∀ a ∈ [belowZero, aboveZero], IsSet .number a :=
    List.forall_mem_cons.2 ⟨isSet_belowZero, List.forall_mem_singleton.2 isSet_aboveZero⟩
  have some_ : ∀ a ∈ [belowZero, aboveZero], ∃ e, IsSet e a := fun a ha => ⟨_, sets a ha⟩
  have whole : ∀ a ∈ [belowZero, aboveZero], a.isWhollyKnown = true :=
    List.forall_mem_cons.2 ⟨rfl, List.forall_mem_singleton.2 rfl⟩
  have called : standardTable.call {} "setunion" [belowZero, aboveZero] =
      .ok (.sequence (.set .number) [.number .negativeZero, .number .nan, .number .nan] ∅) := by
    rw [standardTable_call setunion rfl]
    exact (setFunction_operator _ union_selects true).call_of_one sets rfl {} (.inl rfl)
  refine ⟨some_, whole, called, ?_⟩
  obtain ⟨e, Es, es, m, _, brings, eq, members⟩ :=
    standardTable_set_members .union (standardTable_get? setunion rfl) some_ whole called
  cases eq
  have itself : ∀ a, IsSet .number a → ∀ E, Brings (.set .number) a E → a.elements = E := by
    rintro a isSet E ⟨w, hw, rfl⟩
    rw [Value.convert_of_same (.inr isSet.ty)] at hw
    rw [Except.ok.inj hw]
  cases brings with
  | cons first later =>
    cases later with
    | cons second none =>
      cases none
      rw [itself _ isSet_belowZero _ first, itself _ isSet_aboveZero _ second]
      exact members

theorem setunion_pair (ctx : Context) {e : Ty} {a b : Value} (ha : IsSet e a) (hb : IsSet e b) :
    ∃ v, (table engine).call ctx "setunion" [a, b] = .ok v ∧ IsSet e v ∧
      v.elements = Value.union a.elements b.elements := by
  have sets : ∀ x ∈ [a, b], IsSet e x := List.forall_mem_cons.2 ⟨ha, List.forall_mem_singleton.2 hb⟩
  have operator := setFunction_operator "setunion" union_selects true
  refine ⟨_, ?_, isSet_combined union_selects sets ha.canonical_elem (Value.marksOfAll [a, b]), ?_⟩
  · rw [standardTable_call setunion rfl]
    exact operator.call_of_one sets rfl ctx (.inl rfl)
  · exact Value.normalize_normalize (a.elements ++ b.elements)

/-- How the content of a set was put together does not show in it: neither the order of the elements
    nor that of two united sets, where no two elements differ only in what their unknowns say about
    null, nor how three sets are united, where no two differ only in the sign of zeros either. -/
theorem set_content_canonical (ctx : Context) (e : Ty) :
    (∀ xs ys : List Value, xs.Perm ys → Value.RefinementsAgree (xs.map Value.erase) →
      (Value.set e xs).elements = (Value.set e ys).elements) ∧
    (∀ a b : Value, IsSet e a → IsSet e b →
      Value.RefinementsAgree (a.elements ++ b.elements) →
      ∃ v w, (table engine).call ctx "setunion" [a, b] = .ok v ∧
        (table engine).call ctx "setunion" [b, a] = .ok w ∧ v.elements = w.elements) ∧
    ∀ a b c : Value, IsSet e a → IsSet e b → IsSet e c →
      Value.RefinementsAgree (a.elements ++ b.elements ++ c.elements) →
      Value.ZerosAgree (a.elements ++ b.elements ++ c.elements) →
      ∃ ab bc v w, (table engine).call ctx "setunion" [a, b] = .ok ab ∧
        (table engine).call ctx "setunion" [b, c] = .ok bc ∧
        (table engine).call ctx "setunion" [ab, c] = .ok v ∧
        (table engine).call ctx "setunion" [a, bc] = .ok w ∧ v.elements = w.elements := by
  refine ⟨fun xs ys perm agree => ?_, fun a b ha hb agree => ?_,
    fun a b c ha hb hc agree zeros => ?_⟩
  · have plain : ∀ v ∈ xs.map Value.erase, v.Unmarked :=
      List.forall_mem_map.2 fun v _ => Value.unmarked_erase v
    exact Value.normalize_of_perm (perm.map Value.erase) ((Value.tiesAgree_iff plain).2 agree)
  · obtain ⟨v, hv, _, left⟩ := setunion_pair ctx ha hb
    obtain ⟨w, hw, _, right⟩ := setunion_pair ctx hb ha
    have plain := List.forall_mem_append.2 ⟨ha.content.unmarked, hb.content.unmarked⟩
    refine ⟨v, w, hv, hw, ?_⟩
    rw [left, right, Value.union_comm ((Value.tiesAgree_iff plain).2 agree)]
  · obtain ⟨ab, hab, setAB, unitedAB⟩ := setunion_pair ctx ha hb
    obtain ⟨bc, hbc, setBC, unitedBC⟩ := setunion_pair ctx hb hc
    obtain ⟨v, hv, _, left⟩ := setunion_pair ctx setAB hc
    obtain ⟨w, hw, _, right⟩ := setunion_pair ctx ha setBC
    have plain := List.forall_mem_append.2
      ⟨List.forall_mem_append.2 ⟨ha.content.unmarked, hb.content.unmarked⟩, hc.content.unmarked⟩
    refine ⟨ab, bc, v, w, hab, hbc, hv, hw, ?_⟩
    rw [left, right, unitedAB, unitedBC, Value.union_assoc ((Value.tiesAgree_iff plain).2 agree) zeros]

def justNaN : Value := .sequence (.set .number) [.number .nan] ∅

theorem zeros_united :
    (Value.set .number [.unknownOf .number, .number .nan]).elements =
        (Value.set .number [.number .nan, .unknownOf .number]).elements ∧
      (∃ v w, standardTable.call {} "setunion" [belowZero, aboveZero] = .ok v ∧
        standardTable.call {} "setunion" [aboveZero, belowZero] = .ok w ∧
        v.elements = w.elements) ∧
      ∃ ab bc v w, standardTable.call {} "setunion" [justNaN, belowZero] = .ok ab ∧
        standardTable.call {} "setunion" [belowZero, belowZero] = .ok bc ∧
        standardTable.call {} "setunion" [ab, belowZero] = .ok v ∧
        standardTable.call {} "setunion" [justNaN, bc] = .ok w ∧ v.elements = w.elements := by
  have isSet : IsSet .number justNaN := isSet_of_numbers [.nan] rfl
  have open_ : Value.RefinementsAgree ([.unknownOf .number, .number .nan].map Value.erase) := by
    simp [Value.RefinementsAgree, Value.unknownOf, Value.number, Value.erase, Value.unrefined]
  have numbers : ∀ ns : List Number, Value.RefinementsAgree (ns.map Value.number) := fun ns =>
    Value.refinementsAgree_of_isWhollyKnown (List.forall_mem_map.2 fun _ _ => rfl)
  have signs : ∀ a ∈ [Number.nan, .negativeZero, .nan, .negativeZero, .nan],
      ∀ b ∈ [Number.nan, .negativeZero, .nan, .negativeZero, .nan],
      (Value.number a).same (.number b) = true → a = b := by decide
  have zeros : Value.ZerosAgree (justNaN.elements ++ belowZero.elements ++ belowZero.elements) :=
    List.forall_mem_map.2 fun a ha => List.forall_mem_map.2 fun b hb same =>
      congrArg Value.number (signs a ha b hb same)
  obtain ⟨permuted, swapped, bracketed⟩ := set_content_canonical {} .number
  refine ⟨permuted _ _ (.swap _ _ _) open_, ?_, ?_⟩
  · exact swapped _ _ isSet_belowZero isSet_aboveZero (numbers [.negativeZero, .nan, .zero, .nan])
  · exact bracketed _ _ _ isSet isSet_belowZero isSet_belowZero
      (numbers [.nan, .negativeZero, .nan, .negativeZero, .nan]) zeros

/-- How many elements hold a NaN. -/
def nanCount (v : Value) : Nat := v.elements.countP Value.holdsNaN

theorem countP_not_merges {S : Value} (whole : S.isWhollyKnown = true) :
    S.elements.countP (!Value.merges ·) = nanCount S := by
  refine List.countP_congr fun v hv => ?_
  rw [Value.merges_of_isWhollyKnown (Value.isWhollyKnown_elements whole v hv), Bool.not_not]

def GivesCount (t : FunctionTable) (ctx : Context) (name : String) (args : List Value)
    (n : Nat) : Prop :=
  ∃ v, t.call ctx name args = .ok v ∧ v.elementCount? = some n

theorem givesCount_pair (engine : Regex.Engine) (name : String) {f : Function} {op : SetOperation}
    {bearsUnknown : Bool}
    (found : (functions engine).reverse.find? (fun g => name == g.name) = some f)
    (operator : SetOperator f op bearsUnknown) (arity : f.arityFault? 2 = none) (ctx : Context)
    {e : Ty} {S : Value} (isSet : IsSet e S) (whole : S.isWhollyKnown = true) :
    GivesCount (table engine) ctx name [S, S] (Value.normalize (op S.elements S.elements)).length := by
  have sets : ∀ a ∈ [S, S], IsSet e a :=
    List.forall_mem_cons.2 ⟨isSet, List.forall_mem_singleton.2 isSet⟩
  have known : ∀ a ∈ [S, S], a.isWhollyKnown = true :=
    List.forall_mem_cons.2 ⟨whole, List.forall_mem_singleton.2 whole⟩
  exact ⟨_, (standardTable_call f found ctx _).trans (operator.call_of_one sets arity ctx (.inr known)),
    rfl⟩

/-- A wholly known set with itself. An element that holds a NaN is not the same as itself: it stays
    in the differences, is kept twice by the union and lost by the intersection. Without such
    elements the differences are empty and the union and the intersection as large as the set. -/
theorem set_with_itself (ctx : Context) {e : Ty} {S : Value} (isSet : IsSet e S)
    (whole : S.isWhollyKnown = true) :
    GivesCount (table engine) ctx "setsubtract" [S, S] (nanCount S) ∧
      GivesCount (table engine) ctx "setsymmetricdifference" [S, S] (2 * nanCount S) ∧
      GivesCount (table engine) ctx "setunion" [S, S] (S.elements.length + nanCount S) ∧
      ∃ n, GivesCount (table engine) ctx "setintersection" [S, S] n ∧
        n + nanCount S ≤ S.elements.length ∧ (nanCount S = 0 → n = S.elements.length) := by
  have count := countP_not_merges whole
  have ties : Value.TiesAgree S.elements := fun _ hv _ hw =>
    isSet.content.eq_of_tied (Value.isWhollyKnown_elements whole) hv hw
  have subtract := givesCount_pair engine "setsubtract" rfl setsubtract_operator rfl ctx isSet whole
  have difference := givesCount_pair engine "setsymmetricdifference" rfl
    (setFunction_operator _ symmetricDifference_selects false) rfl ctx isSet whole
  have union := givesCount_pair engine "setunion" rfl
    (setFunction_operator _ union_selects true) rfl ctx isSet whole
  have intersection := givesCount_pair engine "setintersection" rfl
    (setFunction_operator _ intersection_selects false) rfl ctx isSet whole
  rw [Value.length_subtract_self, count] at subtract
  rw [Value.length_symmetricDifference_self, count] at difference
  rw [Value.length_union_self isSet.content ties, count] at union
  refine ⟨subtract, difference, union, _, intersection, ?_, fun none => ?_⟩
  · rw [← count]
    exact Value.length_intersection_self_le _
  · rw [Value.intersection_self_of_merges isSet.content (count.trans none)]

/-- The NaN of the set stays, and is kept twice. -/
theorem belowZero_with_itself :
    IsSet .number belowZero ∧ belowZero.isWhollyKnown = true ∧
      GivesCount standardTable {} "setsubtract" [belowZero, belowZero] 1 ∧
      GivesCount standardTable {} "setsymmetricdifference" [belowZero, belowZero] 2 ∧
      GivesCount standardTable {} "setunion" [belowZero, belowZero] 3 ∧
      ∃ n, GivesCount standardTable {} "setintersection" [belowZero, belowZero] n ∧ n + 1 ≤ 2 := by
  obtain ⟨subtract, difference, union, n, intersection, fewer, _⟩ :=
    set_with_itself {} isSet_belowZero rfl
  exact ⟨isSet_belowZero, rfl, subtract, difference, union, n, intersection, fewer⟩

end MarkedValues
