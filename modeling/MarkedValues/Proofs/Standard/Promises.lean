import MarkedValues.Proofs.Call.Resolving
import MarkedValues.Proofs.Standard.Forgetting

/-!
The types promised by the standard functions while arguments are unknown. A rule that looks into its
arguments answers `dynamic` where something unknown could change the type. Two do not do so in every
case: `lookup` in an object takes the type of the default while the key is unknown, and `merge`
takes an unknown for a mapping although it may turn out to be null and is then left out.
-/
namespace MarkedValues

open Outcomes
open Value (Completes SameType)

variable {engine : Regex.Engine}

namespace Ty

theorem fills_dynamic (t : Ty) : Fills t .dynamic := rfl

theorem fills_self (t : Ty) : Fills t t := conversionType_self t

theorem Fills.list {u t : Ty} (h : Fills u t) : Fills (.list u) (.list t) := by
  unfold Fills at h ⊢
  simp only [conversionType]
  split
  · next same =>
    have eq : u = t := by simpa using same
    rw [eq]
  · rw [h]
    rfl

theorem fills_set_dynamic (e : Ty) : Fills (.set e) (.set .dynamic) :=
  Matches.fills ⟨e, rfl, trivial⟩ trivial

end Ty

namespace Value

theorem isWhollyKnown_of_string? {v : Value} {s : String} (h : v.string? = some s) :
    v.isWhollyKnown = true := by
  cases v <;> first | rfl | cases h

theorem isWhollyKnown_of_number? {v : Value} {n : Number} (h : v.number? = some n) :
    v.isWhollyKnown = true := by
  cases v <;> first | rfl | cases h

theorem isWhollyKnown_of_isPrimitive {v : Value} (primitive : v.ty.isPrimitive = true)
    (known : v.isUnknown = false) : v.isWhollyKnown = true := by
  cases v with
  | unknown t r m => cases known
  | sequence k es m => cases k <;> cases primitive
  | mapping k es m => cases k <;> cases primitive
  | _ => rfl

end Value

namespace Standard

section

variable {seen seen' : List Value} (places : List.Forall₂ Resolved seen seen')

include places

theorem getElem?_kept {i : Nat} {w : Value} (hw : seen[i]? = some w)
    (whole : w.isWhollyKnown = true) : seen'[i]? = some w := by
  obtain ⟨w', hw', resolved⟩ := Lists.forall₂_getElem? places hw
  rw [hw', resolved.kept whole]

theorem argument_kept {i : Nat} (whole : (argument seen i).isWhollyKnown = true) :
    argument seen' i = argument seen i := by
  apply argument_congr
  rw [argument, List.getD_eq_getElem?_getD] at whole
  cases hw : seen[i]? with
  | none =>
    rw [hw] at whole
    cases whole
  | some w =>
    rw [hw] at whole
    exact getElem?_kept places hw whole

theorem getElem?_of_wholeAt {i : Nat} {k : Int} (h : wholeAt seen i = .ok k) :
    seen'[i]? = seen[i]? := by
  obtain ⟨n, hn, _⟩ := bind_eq_ok.1 h
  unfold numberAt at hn
  split at hn
  · next m hm =>
    obtain ⟨w, hw, number⟩ := Option.bind_eq_some_iff.1 hm
    rw [hw]
    exact getElem?_kept places hw (Value.isWhollyKnown_of_number? number)
  · cases hn

end

theorem allSome_map_imp {α β γ : Type} {f : α → Option γ} {g : β → Option γ} {as : List α}
    {bs : List β} (h : List.Forall₂ (fun a b => ∀ c, f a = some c → g b = some c) as bs)
    {cs : List γ} (hcs : allSome (as.map f) = some cs) : allSome (bs.map g) = some cs := by
  induction h generalizing cs with
  | nil => exact hcs
  | @cons a b as bs hab _ ih =>
    rw [List.map_cons] at hcs ⊢
    cases ha : f a with
    | none =>
      rw [ha] at hcs
      cases hcs
    | some c =>
      rw [ha, allSome] at hcs
      obtain ⟨cs', hcs', rfl⟩ := Option.map_eq_some_iff.1 hcs
      rw [hab c ha, allSome, ih hcs']
      rfl

/-- The type found before leaves room for the type found after. -/
def Promises (f : Function) : Prop :=
  ∀ {seen seen' : List Value} {t t' : Ty}, f.Resolves seen seen' → f.resolveType seen = .ok t →
    f.resolveType seen' = .ok t' → Ty.Fills t' t

section

variable {f : Function}

theorem promises_of_rule {rule : Resolver} (resolved : f.rule = .resolved rule)
    (promises : ∀ seen seen' t t', f.Resolves seen seen' → rule seen = .ok t → rule seen' = .ok t' →
      Ty.Fills t' t) : Promises f := by
  intro seen seen' t t' h ht ht'
  exact promises seen seen' t t' h (rule_of_resolveType resolved ht) (rule_of_resolveType resolved ht')

theorem promises_of_readsTypes {rule : Resolver} (resolved : f.rule = .resolved rule)
    (reads : ReadsTypes rule) : Promises f := by
  refine promises_of_rule resolved fun seen seen' t t' h ht ht' => ?_
  rw [reads h.types, ht] at ht'
  cases ht'
  exact Ty.fills_self t

end

theorem castType_readsTypes (target : Ty) : ReadsTypes fun args =>
    if (argument args 0).ty.isDynamic then .ok target
    else match Ty.conversionType (argument args 0).ty target with
    | some t => .ok t
    | none => blame 0 ("cannot convert " ++ (argument args 0).ty.text ++ " to " ++ target.text) := by
  intro seen seen' types
  simp only [argument_ty types 0]

theorem cast_promises (name : String) (target : Ty) : Promises (cast name target) :=
  promises_of_readsTypes rfl (castType_readsTypes target)

theorem coalescelist_promises : Promises coalescelist := by
  refine promises_of_rule rfl fun seen seen' t t' h ht ht' => ?_
  rw [eq_of_coalescelistType ht, eq_of_coalescelistType ht', h.types]
  exact Ty.fills_self _

theorem element_promises : Promises element := by
  refine promises_of_rule rfl fun seen seen' t t' h ht ht' => ?_
  have types := h.types
  unfold elementTypeAt at ht ht'
  rw [requireSequence_congr (argument_ty types 0), argument_ty types 0] at ht'
  obtain ⟨_, hs, ht⟩ := bind_eq_ok.1 ht
  obtain ⟨_, _, ht'⟩ := bind_eq_ok.1 ht'
  split at ht
  · next es shape =>
    split at ht
    · next i hi =>
      obtain ⟨n, number, _⟩ := Option.bind_eq_some_iff.1 hi
      have index := argument_kept h.places (Value.isWhollyKnown_of_number? number)
      rw [shape, index] at ht'
      simp only [hi] at ht'
      rw [ht] at ht'
      cases ht'
      exact Ty.fills_self t
    · cases ht
      exact Ty.fills_dynamic t'
  · next other =>
    cases ht
    split at ht'
    · next es shape => exact absurd shape (other es)
    · cases ht'
      exact Ty.fills_self _

theorem slice_promises : Promises slice := by
  refine promises_of_rule rfl fun seen seen' t t' h ht ht' => ?_
  have types := h.types
  unfold sliceType at ht ht'
  rw [requireSequence_congr (argument_ty types 0), argument_ty types 0] at ht'
  obtain ⟨_, _, ht⟩ := bind_eq_ok.1 ht
  obtain ⟨_, _, ht'⟩ := bind_eq_ok.1 ht'
  split at ht
  · next es shape =>
    split at ht
    · cases ht
      exact Ty.fills_dynamic t'
    · next known =>
      obtain ⟨bounds, hb, ht⟩ := bind_eq_ok.1 ht
      have read := hb
      obtain ⟨start, hstart, read⟩ := bind_eq_ok.1 read
      obtain ⟨stop, hstop, _⟩ := bind_eq_ok.1 read
      have first := getElem?_of_wholeAt h.places hstart
      have second := getElem?_of_wholeAt h.places hstop
      have same : sliceBounds seen' es.length = sliceBounds seen es.length := by
        rw [sliceBounds, sliceBounds, wholeAt_congr first, wholeAt_congr second]
      rw [shape, argument_congr first, argument_congr second] at ht'
      simp only [if_neg known, same, hb] at ht'
      have agree : t' = t := Except.ok.inj (ht'.symm.trans ht)
      rw [agree]
      exact Ty.fills_self t
  · next other =>
    cases ht
    split at ht'
    · next es shape => exact absurd shape (other es)
    · cases ht'
      exact Ty.fills_self _

theorem isWhollyKnown_of_keys {v : Value} {keys : List Value} (wf : v.WellFormed)
    (typed : Ty.Matches v.ty (.list .string)) (elements : v.elements? = some keys)
    (known : keys.all Value.isKnown = true) : v.isWhollyKnown = true := by
  cases wf with
  | @list e es m _ strings _ =>
    cases elements
    obtain ⟨f, heq, string⟩ := typed
    cases heq
    cases (show e = .string from string)
    refine Value.isWhollyKnown_sequence.2 fun w hw => ?_
    have type : w.ty = .string := strings w hw
    refine Value.isWhollyKnown_of_isPrimitive (by rw [type]; rfl) ?_
    simpa [Value.isKnown] using List.all_eq_true.1 known w hw
  | set _ _ _ =>
    obtain ⟨f, heq, _⟩ := typed
    cases heq
  | tuple _ =>
    obtain ⟨f, heq, _⟩ := typed
    cases heq
  | _ => cases elements

theorem zipmap_promises : Promises zipmap := by
  refine promises_of_rule rfl fun seen seen' t t' h ht ht' => ?_
  have types := h.types
  unfold zipmapType at ht ht'
  rw [argument_ty types 1] at ht'
  split at ht
  · next e shape =>
    rw [shape] at ht'
    cases ht
    cases ht'
    exact Ty.fills_self _
  · next es shape =>
    rw [shape] at ht'
    split at ht
    · next keys hkeys =>
      split at ht
      · next known =>
        have whole : (argument seen 0).isWhollyKnown = true := by
          rw [argument, List.getD_eq_getElem?_getD] at hkeys ⊢
          cases hw : seen[0]? with
          | none =>
            rw [hw] at hkeys
            cases hkeys
          | some w =>
            rw [hw] at hkeys
            obtain ⟨_, _, resolved⟩ := Lists.forall₂_getElem? h.places hw
            exact isWhollyKnown_of_keys resolved.built (h.typed 0 w _ hw rfl) hkeys known
        rw [argument_kept h.places whole] at ht'
        simp only [hkeys, if_pos known] at ht'
        rw [ht] at ht'
        cases ht'
        exact Ty.fills_self t
      · cases ht
        exact Ty.fills_dynamic t'
    · cases ht
      exact Ty.fills_dynamic t'
  · cases ht

theorem flatten_promises : Promises flatten := by
  refine promises_of_rule rfl fun seen seen' t t' h ht ht' => ?_
  unfold flattenType at ht ht'
  by_cases whole : (argument seen 0).isWhollyKnown = true
  · rw [argument_kept h.places whole, ht] at ht'
    cases ht'
    exact Ty.fills_self t
  · simp only at ht
    split at ht
    · cases ht
    · rw [if_pos (by simpa using whole)] at ht
      cases ht
      exact Ty.fills_dynamic t'

theorem regexType_promises {seen seen' : List Value} {t t' : Ty}
    (places : List.Forall₂ Resolved seen seen') (ht : regexType engine seen = .ok t)
    (ht' : regexType engine seen' = .ok t') : Ty.Fills t' t := by
  unfold regexType at ht ht'
  split at ht
  · next pattern hp =>
    rw [argument_kept places (Value.isWhollyKnown_of_string? hp), hp] at ht'
    simp only at ht'
    rw [ht] at ht'
    cases ht'
    exact Ty.fills_self t
  · cases ht
    exact Ty.fills_dynamic t'

theorem regex_promises : Promises (regex engine) :=
  promises_of_rule rfl fun _ _ _ _ h => regexType_promises h.places

theorem regexall_promises : Promises (regexall engine) := by
  refine promises_of_rule rfl fun seen seen' t t' h ht ht' => ?_
  obtain ⟨u, hu, ht⟩ := bind_eq_ok.1 ht
  obtain ⟨u', hu', ht'⟩ := bind_eq_ok.1 ht'
  cases ht
  cases ht'
  exact (regexType_promises h.places hu hu').list

theorem elementTypesOf_completes {v v' : Value} (h : Completes SameType v v')
    (ordered : (v.ty.isList || v.ty.isTuple) = true) {ts : List Ty}
    (hts : elementTypesOf v = some ts) : elementTypesOf v' = some ts := by
  have exact : ∀ t m w, SameType t m w → w.ty = t := fun _ _ _ fit => fit
  have types := h.ty exact
  cases h with
  | unknown _ _ _ =>
    unfold elementTypesOf at hts ⊢
    rw [types]
    split at hts
    · exact hts
    · cases hts
  | list parts =>
    cases hts
    exact congrArg some (Completes.types_eq (fun _ _ _ hw => hw.ty exact) parts)
  | set _ => cases ordered
  | tuple _ =>
    unfold elementTypesOf at hts ⊢
    rw [types]
    exact hts
  | @mapping k _ _ _ _ _ => cases k <;> cases ordered
  | null => exact hts
  | scalar => exact hts

theorem concat_promises : Promises concat := by
  refine promises_of_rule rfl fun seen seen' t t' h ht ht' => ?_
  have types := h.types
  unfold concatType at ht ht'
  rw [isEmpty_of_types types] at ht'
  split at ht
  · cases ht
  · next nonempty =>
    rw [if_neg nonempty] at ht'
    split at ht
    · cases ht
    · next fits =>
      have all : ∀ v ∈ seen, (!(v.ty.isList || v.ty.isTuple)) = false :=
        find?_numbered_eq_none.1 fits
      have fits' : firstNoSequence seen' = none := find?_numbered_eq_none.2
        (all_types (p := fun t => (!(t.isList || t.isTuple)) = false) types all)
      have ordered : ∀ v ∈ seen, (v.ty.isList || v.ty.isTuple) = true :=
        fun v hv => by rw [← Bool.not_eq_false', all v hv]
      rw [fits', all_ty_congr types Ty.isList, map_ty_congr types Ty.elementType] at ht'
      simp only at ht ht'
      split at ht
      · next e common =>
        rw [common] at ht'
        cases ht
        cases ht'
        exact Ty.fills_self _
      · next common =>
        rw [common] at ht'
        split at ht
        · next ess known =>
          have places : List.Forall₂ (fun v v' => ∀ ts, elementTypesOf v = some ts →
              elementTypesOf v' = some ts) seen seen' :=
            Lists.forall₂_imp_left (fun v hv _ hv' ts hts =>
              elementTypesOf_completes hv' (ordered v hv) hts) (h.open_ rfl)
          rw [allSome_map_imp places known] at ht'
          cases ht
          cases ht'
          exact Ty.fills_self _
        · cases ht
          exact Ty.fills_dynamic t'

/-- The arguments that do not turn out to be null. -/
def staying (args args' : List Value) : List Value :=
  ((args.zip args').filter fun a => !a.2.isNull).map Prod.fst

def SomeTurnsNull (args args' : List Value) : Prop :=
  ∃ (i : Nat) (a a' : Value), args[i]? = some a ∧ args'[i]? = some a' ∧ a.isUnknown = true ∧
    a'.isNull = true

/-- Some unknown argument turns out to be null, and the type of the arguments that stay does not
    fill in the type of all of them. -/
structure TurnsNull (args args' : List Value) : Prop where
  turns : SomeTurnsNull args args'
  changes : ∃ t u, mergeType args = .ok t ∧ mergeType (staying args args') = .ok u ∧ ¬ Ty.Fills u t

theorem staying_cons (a a' : Value) (args args' : List Value) :
    staying (a :: args) (a' :: args') =
      if a'.isNull then staying args args' else a :: staying args args' := by
  cases null : a'.isNull <;> simp [staying, null]

theorem staying_map_erase (args args' : List Value) :
    staying (args.map Value.erase) (args'.map Value.erase) =
      (staying args args').map Value.erase := by
  have null : ((fun a => !a.2.isNull) ∘ Prod.map Value.erase Value.erase) =
      fun a : Value × Value => !a.2.isNull := funext fun a => by simp
  rw [staying, List.zip_map, List.filter_map, null, staying, List.map_map, List.map_map]
  rfl

theorem staying_completes {args args' : List Value}
    (h : List.Forall₂ (Completes SameType) args args') :
    List.Forall₂ (Completes SameType) (staying args args') (args'.filter fun v => !v.isNull) := by
  induction h with
  | nil => exact .nil
  | @cons a a' args args' first _ ih =>
    rw [staying_cons, List.filter_cons]
    cases a'.isNull with
    | true => exact ih
    | false => exact .cons first ih

theorem filter_staying {args args' : List Value}
    (h : List.Forall₂ (Completes SameType) args args') :
    (staying args args').filter (fun v => !v.isNull) = staying args args' := by
  refine List.filter_eq_self.2 fun a ha => ?_
  obtain ⟨a', ha', completed⟩ := Lists.exists_of_mem_right (staying_completes h).flip ha
  have present : a'.isNull = false := by simpa using (List.mem_filter.1 ha').2
  cases state : a.isUnknown with
  | false => rw [← completed.isNull state, present]; rfl
  | true => cases a <;> first | rfl | cases state

/-- Where no unknown turns out to be null, the arguments that are not null stay. -/
theorem staying_eq_filter {args args' : List Value}
    (h : List.Forall₂ (Completes SameType) args args')
    (none : ¬ SomeTurnsNull args args') :
    staying args args' = args.filter fun v => !v.isNull := by
  induction h with
  | nil => rfl
  | @cons a a' args args' first _ ih =>
    have later := ih fun ⟨i, b, b', hb, hb', turns⟩ => none ⟨i + 1, b, b', hb, hb', turns⟩
    have null : a'.isNull = a.isNull := by
      cases state : a.isUnknown with
      | false => exact first.isNull state
      | true =>
        have present : ¬ a'.isNull = true := fun null => none ⟨0, a, a', rfl, rfl, state, null⟩
        cases a with
        | unknown t r m => simpa [Value.isNull] using present
        | _ => cases state
    rw [staying_cons, List.filter_cons, null, later]
    cases a.isNull <;> rfl

theorem firstNoMapping_congr {args args' : List Value}
    (types : args'.map Value.ty = args.map Value.ty) (fits : firstNoMapping args = none) :
    firstNoMapping args' = none :=
  find?_numbered_eq_none.2 (all_types (p := fun t => (!(t.isDynamic || t.isMapping)) = false) types
    (find?_numbered_eq_none.1 fits))

theorem attributeTypesOf_erase (v : Value) : attributeTypesOf v.erase = attributeTypesOf v := by
  rw [attributeTypesOf, Value.ty_erase, attributeTypesOf]
  split
  · rfl
  · cases v with
    | mapping k es m => simp [Value.erase, Value.entries?, Function.comp_def]
    | _ => rfl

theorem mergeType_of_erase {args : List Value} {t : Ty}
    (h : mergeType (args.map Value.erase) = .ok t) : mergeType args = .ok t := by
  have types (vs : List Value) : vs.map Value.ty = (vs.map Value.erase).map Value.ty := by
    simp [Function.comp_def]
  have attributes (vs : List Value) : (vs.map Value.erase).map attributeTypesOf =
      vs.map attributeTypesOf := by
    simp [Function.comp_def, attributeTypesOf_erase]
  have null : ((fun v : Value => !v.isNull) ∘ Value.erase) = fun v => !v.isNull :=
    funext fun v => by simp
  unfold mergeType at h ⊢
  split at h
  · cases h
  · next fits =>
    rw [firstNoMapping_congr (types args) fits]
    dsimp only at h ⊢
    rw [List.filter_map, null, attributes] at h
    rwa [all_ty_congr (types _) Ty.isMap, map_ty_congr (types _) Ty.elementType]

theorem exists_mergeType_staying {args args' : List Value} {t : Ty} (h : mergeType args = .ok t) :
    ∃ u, mergeType (staying args args') = .ok u := by
  have fits : firstNoMapping args = none := by
    unfold mergeType at h
    split at h
    · cases h
    · next fits => exact fits
  have fits' : firstNoMapping (staying args args') = none := by
    refine find?_numbered_eq_none.2 fun a ha =>
      (find?_numbered_eq_none (p := fun v : Value => !(v.ty.isDynamic || v.ty.isMapping))).1 fits a ?_
    obtain ⟨⟨b, b'⟩, mem, rfl⟩ := List.mem_map.1 ha
    exact (List.of_mem_zip (List.mem_filter.1 mem).1).1
  unfold mergeType
  rw [fits']
  dsimp only
  split
  · exact ⟨_, rfl⟩
  · split <;> exact ⟨_, rfl⟩

theorem attributeTypesOf_completes {v v' : Value} (h : Completes SameType v v')
    {attrs : List (String × Ty)} (hattrs : attributeTypesOf v = some attrs) :
    attributeTypesOf v' = some attrs := by
  have exact : ∀ t m w, SameType t m w → w.ty = t := fun _ _ _ fit => fit
  have types := h.ty exact
  unfold attributeTypesOf at hattrs ⊢
  rw [types]
  split at hattrs
  · exact hattrs
  · cases h with
    | @mapping k es es' m keys parts =>
      cases hattrs
      have values := Completes.types_eq (fun _ _ _ hw => hw.ty exact) parts
      refine congrArg some
        (Dict.ext (c := Dict.mapValues Value.ty es') (d := Dict.mapValues Value.ty es) ?_ ?_)
      · rw [Dict.keys_mapValues, Dict.keys_mapValues, keys]
      · rw [Dict.values_mapValues, Dict.values_mapValues, values]
    | _ => first | exact hattrs | cases hattrs

/-- The type is settled or left open while arguments are unknown that are not going to be null. -/
theorem mergeType_completes {args args' : List Value} {t t' : Ty}
    (present : List.Forall₂ (Completes SameType) (args.filter fun v => !v.isNull)
      (args'.filter fun v => !v.isNull))
    (ht : mergeType args = .ok t) (ht' : mergeType args' = .ok t') : t' = t ∨ t = .dynamic := by
  have types : (args'.filter fun v => !v.isNull).map Value.ty =
      (args.filter fun v => !v.isNull).map Value.ty :=
    Completes.types_eq (fun _ _ _ hv => hv.ty fun _ _ _ fit => fit) present
  unfold mergeType at ht ht'
  split at ht
  · cases ht
  · split at ht'
    · cases ht'
    · dsimp only at ht ht'
      rw [all_ty_congr types Ty.isMap, map_ty_congr types Ty.elementType] at ht'
      split at ht
      · next e common =>
        rw [common] at ht'
        cases ht
        cases ht'
        exact .inl rfl
      · next common =>
        rw [common] at ht'
        split at ht
        · next attrs known =>
          have places : List.Forall₂ (fun v v' => ∀ attrs, attributeTypesOf v = some attrs →
              attributeTypesOf v' = some attrs) _ _ :=
            Lists.forall₂_imp (fun _ _ _ hv attrs hattrs => attributeTypesOf_completes hv hattrs)
              present
          rw [allSome_map_imp places known] at ht'
          cases ht
          cases ht'
          exact .inl rfl
        · cases ht
          exact .inr rfl

theorem merge_promises {seen seen' : List Value} {t t' : Ty} (h : merge.Resolves seen seen')
    (ht : mergeType seen = .ok t) (ht' : mergeType seen' = .ok t') :
    Ty.Fills t' t ∨ TurnsNull seen seen' := by
  have completed := h.open_ rfl
  have present := staying_completes completed
  by_cases turns : SomeTurnsNull seen seen'
  · obtain ⟨u, hu⟩ : ∃ u, mergeType (staying seen seen') = .ok u := exists_mergeType_staying ht
    by_cases fills : Ty.Fills u t
    · rw [← filter_staying completed] at present
      rcases mergeType_completes present hu ht' with rfl | rfl
      · exact .inl fills
      · rw [(Ty.conversionType_matches fills).isDynamic]
        exact .inl (Ty.fills_dynamic _)
    · exact .inr ⟨turns, t, u, ht, hu, fills⟩
  · rw [staying_eq_filter completed turns] at present
    rcases mergeType_completes present ht ht' with rfl | rfl
    · exact .inl (Ty.fills_self _)
    · exact .inl (Ty.fills_dynamic _)

theorem isWhollyKnown_of_isEmptyLiteral {v : Value} (h : isEmptyLiteral v = true) :
    v.isWhollyKnown = true := by
  simp only [isEmptyLiteral, Bool.and_eq_true, beq_iff_eq] at h
  cases v with
  | unknown t r m => cases h.2
  | sequence k es m =>
    have none : es = [] := by simpa [Value.elementCount?, Value.elements?, Value.entries?] using h.2
    rw [none]
    rfl
  | mapping k es m =>
    have none : es = [] := by simpa [Value.elementCount?, Value.elements?, Value.entries?] using h.2
    rw [none]
    rfl
  | _ => rfl

/-- The element types stay, or one of them is open. -/
theorem elementTypes_resolved {seen seen' : List Value} (places : List.Forall₂ Resolved seen seen') :
    .dynamic ∈ elementTypes seen ∨ elementTypes seen' = elementTypes seen := by
  induction places with
  | nil => exact .inr rfl
  | @cons v v' seen seen' first _ ih =>
    rw [elementTypes_cons, elementTypes_cons, first.ty]
    by_cases literal : isEmptyLiteral v = true
    · rw [first.kept (isWhollyKnown_of_isEmptyLiteral literal), if_pos literal, if_pos literal]
      exact ih
    · rw [if_neg literal]
      by_cases open_ : v.ty.elementType = .dynamic
      · rw [open_]
        exact .inl List.mem_cons_self
      · have filled : ¬ isEmptyLiteral v' = true := by
          simp [isEmptyLiteral, first.ty, open_]
        rw [if_neg filled]
        exact ih.imp (List.mem_cons_of_mem _) (congrArg _)

theorem setOperation_promises {f : Function} (resolved : f.rule = .resolved setOperationType) :
    Promises f := by
  refine promises_of_rule resolved fun seen seen' t t' h ht ht' => ?_
  have open_ : t = .set .dynamic → Ty.Fills t' t := by
    rintro rfl
    rcases setOperationType_eq_ok.1 ht' with ⟨_, rfl⟩ | ⟨e, _, rfl⟩
    · exact Ty.fills_self _
    · exact Ty.fills_set_dynamic e
  rcases elementTypes_resolved h.places with some | same
  · rcases setOperationType_eq_ok.1 ht with ⟨_, rfl⟩ | ⟨e, he, rfl⟩
    · exact open_ rfl
    · rw [Ty.unify_of_mem_dynamic some] at he
      cases he
      exact open_ rfl
  · rw [setOperationType_eq_ok, same, ← setOperationType_eq_ok, ht] at ht'
    cases ht'
    exact Ty.fills_self t

/-- The default stands in for an attribute of another type: the key is unknown, and the object has
    an attribute whose type is not that of the default. -/
def DefaultStandsIn (args : List Value) : Prop :=
  ∃ attrs d k u, (argument args 0).ty = .object attrs ∧ (argument args 1).isUnknown = true ∧
    args[2]?.map Value.ty = some d ∧ attrs.lookup k = some u ∧ ¬ Ty.Fills u d

theorem lookup_promises {seen seen' : List Value} {t t' : Ty} (h : lookup.Resolves seen seen')
    (ht : lookupType seen = .ok t) (ht' : lookupType seen' = .ok t') :
    Ty.Fills t' t ∨ DefaultStandsIn seen := by
  have types := h.types
  by_cases unknown : (argument seen 1).isUnknown = true
  · have silent : (argument seen 1).string? = none := by
      cases hv : argument seen 1 <;> rw [hv] at unknown <;> first | rfl | cases unknown
    unfold lookupType at ht ht'
    rw [requireMapping_congr (argument_ty types 0), argument_ty types 0, getElem?_ty types 2] at ht'
    split at ht
    · cases ht
    · split at ht'
      · cases ht'
      · obtain ⟨_, _, ht⟩ := bind_eq_ok.1 ht
        obtain ⟨_, _, ht'⟩ := bind_eq_ok.1 ht'
        simp only at ht ht'
        split at ht
        · next e shape =>
          rw [shape] at ht'
          simp only at ht'
          rw [ht] at ht'
          cases ht'
          exact .inl (Ty.fills_self t)
        · next attrs shape =>
          rw [shape] at ht'
          rw [silent] at ht
          cases ht
          cases ht'
          cases default : seen[2]?.map Value.ty with
          | none => exact .inl (Ty.fills_dynamic _)
          | some d =>
            cases found : (argument seen' 1).string?.bind fun k => attrs.lookup k with
            | none => exact .inl (Ty.fills_self d)
            | some u =>
              obtain ⟨k, _, found⟩ := Option.bind_eq_some_iff.1 found
              by_cases fills : Ty.Fills u d
              · exact .inl fills
              · exact .inr ⟨attrs, d, k, u, shape, unknown, default, found, fills⟩
        · cases ht
          exact .inl (Ty.fills_dynamic _)
  · have whole : (argument seen 1).isWhollyKnown = true := by
      rw [argument, List.getD_eq_getElem?_getD] at unknown ⊢
      cases hw : seen[1]? with
      | none =>
        rw [hw] at unknown
        exact absurd rfl unknown
      | some w =>
        rw [hw] at unknown
        have type : w.ty = .string := h.typed 1 w _ hw rfl
        refine Value.isWhollyKnown_of_isPrimitive ?_ (by simpa using unknown)
        show w.ty.isPrimitive = true
        rw [type]
        rfl
    have key : (argument seen' 1).string? = (argument seen 1).string? := by
      rw [argument_kept h.places whole]
    rw [lookupType_congr types key, ht] at ht'
    cases ht'
    exact .inl (Ty.fills_self t)

/-- The functions whose type depends on their arguments. -/
theorem open_functions : (functions engine).filter (fun f => f.fixedType?.isNone) =
    [chunklist, coalesce, coalescelist, compliment, concat, distinct, element, flatten, keys,
     length, lookup, matchkeys, merge, nonsensitive, regex engine, regexall engine, reverse,
     sensitive, setintersection, setsubtract, setsymmetricdifference, setunion, slice, tobool,
     tolist, tomap, tonumber, toset, tostring, values, zipmap] := rfl

theorem open_nameless : ∀ f ∈ (functions engine).filter (fun f => f.fixedType?.isNone),
    f.everyParam (·.ty.isNameless) = true :=
  List.all_eq_true.1 rfl

theorem open_promises : ∀ f ∈ (functions engine).filter (fun f => f.fixedType?.isNone),
    Promises f ∨ f = lookup ∨ f = merge := by
  simp only [open_functions, List.forall_mem_cons]
  exact ⟨
    .inl (promises_of_readsTypes rfl chunklistType_readsTypes),
    .inl (promises_of_readsTypes rfl coalesceType_readsTypes), .inl coalescelist_promises,
    .inl (setOperation_promises rfl), .inl concat_promises,
    .inl (promises_of_readsTypes rfl typeOfFirst_readsTypes), .inl element_promises,
    .inl flatten_promises, .inl (promises_of_readsTypes rfl keysType_readsTypes),
    .inl (promises_of_readsTypes rfl lengthType_readsTypes), .inr (.inl trivial),
    .inl (promises_of_readsTypes rfl matchkeysType_readsTypes), .inr (.inr trivial),
    .inl (promises_of_readsTypes rfl typeOfFirst_readsTypes), .inl regex_promises,
    .inl regexall_promises, .inl (promises_of_readsTypes rfl reverseType_readsTypes),
    .inl (promises_of_readsTypes rfl typeOfFirst_readsTypes), .inl (setOperation_promises rfl),
    .inl (setOperation_promises rfl), .inl (setOperation_promises rfl),
    .inl (setOperation_promises rfl), .inl slice_promises, .inl (cast_promises _ _),
    .inl (cast_promises _ _), .inl (cast_promises _ _), .inl (cast_promises _ _),
    .inl (cast_promises _ _), .inl (cast_promises _ _),
    .inl (promises_of_readsTypes rfl valuesType_readsTypes), .inl zipmap_promises,
    fun _ h => nomatch h⟩

section

variable {f : Function} {args args' : List Value} {q q' : Prepared}

theorem defaultStandsIn_of_prepares (h : lookup.Prepares 0 args q) (settled : q.deferred = false)
    (gap : DefaultStandsIn q.args) : DefaultStandsIn args := by
  obtain ⟨attrs, d, k, u, shape, unknown, default, found⟩ := gap
  have mapping := h.getElem?_ty settled (i := 0) rfl rfl
  have rest := h.getElem?_ty settled (i := 2) rfl rfl
  refine ⟨attrs, d, k, u, ?_, ?_, rest ▸ default, found⟩
  · rw [argument, List.getD_eq_getElem?_getD, ← Option.getD_map Value.ty] at shape ⊢
    rwa [mapping] at shape
  · rw [argument, List.getD_eq_getElem?_getD] at unknown ⊢
    rcases h.place_cases 1 with ⟨ha, _⟩ | ⟨a, w, ha, hw⟩
    · rw [ha]
      rfl
    · rw [hw] at unknown
      rw [ha]
      exact (h.agrees settled ha hw).1 ▸ unknown

theorem turnsNull_of_prepares (h : merge.Prepares 0 args q) (h' : merge.Prepares 0 args' q')
    (settled : q.deferred = false) (settled' : q'.deferred = false)
    (gap : TurnsNull q.args q'.args) : TurnsNull args args' := by
  rw [h.args_eq_erase rfl rfl settled, h'.args_eq_erase rfl rfl settled'] at gap
  obtain ⟨⟨i, w, w', hw, hw', unknown, null⟩, t, u, ht, hu, other⟩ := gap
  rw [List.getElem?_map] at hw hw'
  obtain ⟨a, ha, rfl⟩ := Option.map_eq_some_iff.1 hw
  obtain ⟨a', ha', rfl⟩ := Option.map_eq_some_iff.1 hw'
  rw [Value.isUnknown_erase] at unknown
  rw [Value.isNull_erase] at null
  rw [staying_map_erase] at hu
  exact ⟨⟨i, a, a', ha, ha', unknown, null⟩, t, u, mergeType_of_erase ht, mergeType_of_erase hu, other⟩

end

end Standard

open Standard

/-- The type promised while arguments are unknown is the type found later, with open parts filled
    in. Exempt are `lookup` where the default stands in for an attribute of another type, and
    `merge` where an unknown argument turns out to be null and the others are of another type
    without it. -/
theorem standardTable_keeps_promise {name : String} {f : Function}
    (found : (table engine).get? name = some f) {args args' : List Value}
    (built : ∀ a ∈ args, a.WellFormed) (canonical : ∀ a ∈ args, a.Canonical)
    (completed : List.Forall₂ (Completes SameType) args args') {t t' : Ty}
    (h : f.returnType args = .ok t) (h' : f.returnType args' = .ok t') :
    Ty.Fills t' t ∨ name = "lookup" ∧ DefaultStandsIn args ∨ name = "merge" ∧ TurnsNull args args' := by
  obtain ⟨mem, rfl⟩ := FunctionTable.mem_of_get?_ofList found
  rcases Function.returnType_completes completed h h' with
    rfl | ⟨q, q', ⟨prepares, settled, ht⟩, prepares', settled', ht'⟩
  · exact .inl (Ty.fills_dynamic t')
  · cases fixed : f.rule with
    | fixed u =>
      rw [resolves_of_fixed fixed] at ht ht'
      cases ht
      cases ht'
      exact .inl (Ty.fills_self _)
    | resolved rule =>
      have depends : f ∈ (functions engine).filter (fun f => f.fixedType?.isNone) := by
        refine List.mem_filter.2 ⟨mem, ?_⟩
        rw [Function.fixedType?, fixed]
        rfl
      have resolves := Function.resolves_of_prepares completed (open_nameless f depends) built canonical
        prepares prepares' settled settled'
      rcases open_promises f depends with promises | rfl | rfl
      · exact .inl (promises resolves ht ht')
      · refine (lookup_promises resolves (rule_of_resolveType rfl ht)
          (rule_of_resolveType rfl ht')).imp_right fun gap => .inl ⟨rfl, ?_⟩
        exact defaultStandsIn_of_prepares prepares settled gap
      · refine (merge_promises resolves (rule_of_resolveType rfl ht)
          (rule_of_resolveType rfl ht')).imp_right fun gap => .inr ⟨rfl, ?_⟩
        exact turnsNull_of_prepares prepares prepares' settled settled' gap

def openKey : List Value := [.object [("a", .int 1)], .unknownOf .string, .string "x"]

def foundKey : List Value := [.object [("a", .int 1)], .string "a", .string "x"]

/-- With the key not known yet a string is promised, and then a number is found. -/
theorem lookup_breaks_promise :
    (∀ a ∈ openKey, a.WellFormed) ∧ (∀ a ∈ openKey, a.Canonical) ∧
      List.Forall₂ (Completes SameType) openKey foundKey ∧
      lookup.returnType openKey = .ok .string ∧ lookup.returnType foundKey = .ok .number ∧
      ¬ Ty.Fills .number .string ∧ DefaultStandsIn openKey := by
  have found : standardTable.get? "lookup" = some lookup :=
    standardTable_get? lookup rfl
  have built : ∀ a ∈ openKey, a.WellFormed := by
    simp only [openKey, List.forall_mem_cons]
    refine ⟨Value.wellFormed_object ?_, .unknown trivial, .scalar, nofun⟩
    exact List.forall_mem_singleton.2 .scalar
  have canonical : ∀ a ∈ openKey, a.Canonical := by
    simp only [openKey, List.forall_mem_cons]
    exact ⟨.mapping (List.forall_mem_singleton.2 .scalar), .unknown, .scalar, nofun⟩
  have completed : List.Forall₂ (Completes SameType) openKey foundKey :=
    .cons (.mapping rfl (.cons .scalar .nil)) (.cons (.unknown rfl nofun rfl) (.cons .scalar .nil))
  have before : lookup.returnType openKey = .ok .string := rfl
  have after : lookup.returnType foundKey = .ok .number := rfl
  have broken : ¬ Ty.Fills .number .string := by
    unfold Ty.Fills
    decide +kernel
  refine ⟨built, canonical, completed, before, after, broken, ?_⟩
  rcases standardTable_keeps_promise found built canonical completed before after
    with kept | ⟨_, gap⟩ | ⟨other, _⟩
  · exact absurd kept broken
  · exact gap
  · exact absurd other (by decide)

def openMap : List Value := [.unknownOf (.map .string), .map .number [("a", .int 1)]]

def absentMap : List Value := [.nullOf (.map .string), .map .number [("a", .int 1)]]

/-- A map of strings is promised, and the unknown one turns out not to be there. -/
theorem merge_breaks_promise :
    List.Forall₂ (Completes SameType) openMap absentMap ∧
      merge.returnType openMap = .ok (.map .string) ∧
      merge.returnType absentMap = .ok (.map .number) ∧
      ¬ Ty.Fills (.map .number) (.map .string) ∧ TurnsNull openMap absentMap := by
  have completed : List.Forall₂ (Completes SameType) openMap absentMap :=
    .cons (.unknown rfl nofun rfl) (.cons (.mapping rfl (.cons .scalar .nil)) .nil)
  have before : merge.returnType openMap = .ok (.map .string) :=
    eq_ok_of_toOption (by decide +kernel)
  have after : merge.returnType absentMap = .ok (.map .number) :=
    eq_ok_of_toOption (by decide +kernel)
  have broken : ¬ Ty.Fills (.map .number) (.map .string) := by
    unfold Ty.Fills
    decide +kernel
  have promised : mergeType openMap = .ok (.map .string) := eq_ok_of_toOption (by decide +kernel)
  have left : mergeType (staying openMap absentMap) = .ok (.map .number) :=
    eq_ok_of_toOption (by decide +kernel)
  exact ⟨completed, before, after, broken, ⟨0, _, _, rfl, rfl, rfl, rfl⟩, _, _, promised, left, broken⟩

end MarkedValues
