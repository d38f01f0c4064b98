import MarkedValues.Proofs.Standard.Soundness.Scalars
import Mathlib.Data.List.GetD

/-!
Functions of collections, tuples and objects are sound. Each finds the type of its result in a rule
and the result in a body; the two look at the same elements, so what one says the other gives, up to
a conversion that cannot fail.
-/
namespace MarkedValues.Standard

open Outcomes
open MarkedValues.Function (Sees Resolvable Runnable Honours Sound honours_of_ty)

variable {f : Function} {seen : List Value}

section

variable {t : Ty} {w : Value} (handed : Handed t w)

include handed

theorem Handed.sequence_cases (kind : w.ty.isList = true ∨ w.ty.isTuple = true) :
    (∃ e es m, w = .sequence (.list e) es m) ∨ ∃ es m, w = .sequence .tuple es m := by
  have sequence : w.ty.isSequence = true := by
    rcases kind with kind | kind <;> simp [Ty.isSequence, kind]
  obtain ⟨k, es, m, rfl⟩ := Value.exists_sequence_of_ty handed.present handed.known sequence
  cases k with
  | list e => exact .inl ⟨e, es, m, rfl⟩
  | set e => rcases kind with kind | kind <;> cases kind
  | tuple => exact .inr ⟨es, m, rfl⟩

theorem Handed.mapping_cases (kind : w.ty.isMapping = true) :
    (∃ e es m, w = .mapping (.map e) es m) ∨ ∃ es m, w = .mapping .object es m := by
  obtain ⟨k, es, m, rfl⟩ := Value.exists_mapping_of_ty handed.present handed.known kind
  cases k with
  | map e => exact .inl ⟨e, es, m, rfl⟩
  | object => exact .inr ⟨es, m, rfl⟩

end

theorem Handed.list_cases {e : Ty} {w : Value} (handed : Handed (.list e) w) :
    ∃ e es m, w = .sequence (.list e) es m := by
  obtain ⟨u, type, _⟩ := handed.typed
  rcases handed.sequence_cases (.inl (type ▸ rfl)) with list | ⟨es, m, rfl⟩
  · exact list
  · cases type

theorem ends_requireSequence (v : Value) (i : Nat) :
    Ends (fun _ => v.ty.isList = true ∨ v.ty.isTuple = true) (requireSequence v i) := by
  unfold requireSequence
  exact ends_ite (fun kind => ends_ok (by simpa using kind)) fun _ => rfl

theorem ends_requireMapping (v : Value) (i : Nat) :
    Ends (fun _ => v.ty.isMapping = true) (requireMapping v i) :=
  ends_ite (fun kind => kind) fun _ => rfl

theorem kind_of_requireSequence {v : Value} {i : Nat} (h : requireSequence v i = .ok ()) :
    v.ty.isList = true ∨ v.ty.isTuple = true := by
  have ends := ends_requireSequence v i
  rwa [h] at ends

theorem kind_of_requireMapping {v : Value} {i : Nat} (h : requireMapping v i = .ok ()) :
    v.ty.isMapping = true := by
  have ends := ends_requireMapping v i
  rwa [h] at ends

theorem ty_tuple (vs : List Value) : (Value.tuple vs).ty = .tuple (vs.map Value.ty) := by
  simp [Value.tuple, Value.ty]

theorem honours_unknownOf (ret : Ty) : f.Honours ret (.unknownOf ret) := honours_of_ty rfl rfl

theorem ends_convertAt (i : Nat) (v : Value) (t : Ty) :
    Ends (fun w => Value.convert v t = .ok w) (convertAt i v t) := by
  unfold convertAt
  cases h : Value.convert v t with
  | error e => rfl
  | ok w => rfl

/-- What well-formed values convert to converts to the type once more. -/
theorem honours_of_convert {v w : Value} {ret : Ty} (nullable : f.notNull = false)
    (built : v.WellFormed) (canonical : ret.Canonical) (h : Value.convert v ret = .ok w) :
    f.Honours ret w := by
  have typed := Value.matches_convert (Ty.Matches.refl ret) canonical h
  obtain ⟨u, hu, _⟩ := Value.fixed_of_matches (built.convert canonical h) canonical typed
  exact ⟨fun never => absurd never (by simp [nullable]), u, hu⟩

theorem ends_unifyArguments (types : List (Nat × Ty)) (what : String) :
    Ends (fun t => Ty.unify (types.map Prod.snd) = some t) (unifyArguments types what) := by
  unfold unifyArguments
  cases h : Ty.unify (types.map Prod.snd) with
  | some t => rfl
  | none => dsimp only; split <;> rfl

theorem ret_of_typeOfFirst (run : f.Runnable seen) (declared : declares f 0 (.list .dynamic) = true)
    {ret : Ty} (h : typeOfFirst seen = .ok ret) : ret = .list ret.elementType := by
  obtain ⟨e, es, m, first⟩ := (handed_of_declares run declared).2.list_cases
  simp only [typeOfFirst, first] at h
  cases h
  rfl

theorem distinct_sound : distinct.Sound := by
  refine sound_of_rule rfl rfl (fun _ _ => trivial) fun ctx seen ret run h => ?_
  have list := ret_of_typeOfFirst run rfl h
  simp only [distinct]
  exact ends_ite (fun _ => honours_of_ty list.symm rfl) fun _ => honours_unknownOf ret

theorem compact_sound : compact.Sound := by
  refine sound_of_fixed rfl rfl fun ctx seen run => ?_
  simp only [compact]
  exact ends_ite (fun _ => honours_of_ty rfl rfl) fun _ => honours_unknownOf _

theorem sort_sound : sort.Sound := by
  refine sound_of_fixed rfl rfl fun ctx seen run => ?_
  simp only [sort, sortBody]
  refine ends_ite (fun _ => honours_unknownOf _) fun _ => ?_
  split
  · exact honours_of_ty rfl rfl
  · rfl

theorem chunklist_sound : chunklist.Sound := by
  refine sound_of_rule rfl rfl (fun _ _ => trivial) fun ctx seen ret run h => ?_
  cases h
  simp only [chunklist, chunklistBody]
  refine (ends_whole run (f := chunklist) (i := 1) rfl).bind fun size _ => ?_
  exact ends_ite (fun _ => rfl) fun _ => honours_of_ty rfl rfl

theorem elementTypes_of_handed
    (handed : ∀ a ∈ seen, Handed .dynamic a ∧ (a.ty.isList = true ∨ a.ty.isTuple = true)) :
    allSome (seen.map elementTypesOf) =
      some (seen.map fun a => a.elements.map Value.ty) := by
  rw [← Ty.allSome_map_some]
  congr 1
  refine List.map_congr_left fun a ha => ?_
  rcases (handed a ha).1.sequence_cases (handed a ha).2 with ⟨e, es, m, rfl⟩ | ⟨es, m, rfl⟩
  · rfl
  · simp [elementTypesOf, Value.ty, Value.elements, Value.elements?]

theorem handed_of_mem (run : f.Runnable seen) (none : f.params = []) {t : Ty}
    (declared : declaresRest f t = true) : ∀ a ∈ seen, Handed t a := by
  intro a ha
  obtain ⟨i, hi⟩ := List.mem_iff_getElem?.1 ha
  exact handed_of_declaresRest run declared (none ▸ Nat.zero_le i) hi

theorem concat_sound : concat.Sound := by
  refine sound_of_rule rfl rfl (fun seen _ => ?_) fun ctx seen ret run h => ?_
  · unfold concatType
    refine ends_ite (fun _ => rfl) fun _ => ?_
    split
    · rfl
    · dsimp only
      split
      · trivial
      · split <;> trivial
  · simp only [concat, concatBody]
    unfold concatType at h
    split at h
    · cases h
    · split at h
      · cases h
      · next fits =>
        have kinds := (find?_numbered_eq_none
          (p := fun v : Value => !(v.ty.isList || v.ty.isTuple))).1 fits
        simp only [Bool.not_eq_eq_eq_not, Bool.not_false, Bool.or_eq_true] at kinds
        have each := elementTypes_of_handed fun a ha =>
          ⟨handed_of_mem run rfl rfl a ha, kinds a ha⟩
        dsimp only at h
        split at h
        · cases h
          refine (ends_mapM (P := fun _ => True) fun x _ => ?_).bind fun parts _ => ?_
          · exact (ends_mapM (P := fun _ => True) fun v _ =>
              (ends_convertAt _ v _).imp fun _ _ => trivial).imp fun _ _ => trivial
          · exact honours_of_ty rfl rfl
        · rw [each] at h
          cases h
          refine honours_of_ty ?_ rfl
          rw [ty_tuple, List.map_flatMap, List.flatMap_def]

theorem reverse_sound : reverse.Sound := by
  refine sound_of_rule rfl rfl (fun seen _ => ?_) fun ctx seen ret run h => ?_
  · refine (ends_requireSequence _ 0).bind fun _ _ => ?_
    split <;> trivial
  · have handed := (handed_of_declares run (f := reverse) (i := 0) (t := .dynamic) rfl).2
    simp only [reverse]
    unfold reverseType at h
    generalize argument seen 0 = w at handed h ⊢
    obtain ⟨_, kind, h⟩ := bind_eq_ok.1 h
    rcases handed.sequence_cases (kind_of_requireSequence kind) with ⟨e, es, m, rfl⟩ | ⟨es, m, rfl⟩
    · cases h
      exact honours_of_ty rfl rfl
    · cases h
      refine honours_of_ty ?_ rfl
      simp [sequenceLike, ty_tuple, Value.elements, Value.elements?]

theorem int?_of_wholeAt {i : Nat} {k : Int} (h : wholeAt seen i = .ok k) :
    (argument seen i).int? = some k := by
  obtain ⟨n, hn, h⟩ := bind_eq_ok.1 h
  have number : (argument seen i).number? = some n := by
    unfold numberAt at hn
    rw [argument, List.getD_eq_getElem?_getD]
    cases hw : seen[i]? with
    | none =>
      rw [hw] at hn
      cases hn
    | some w =>
      rw [hw, Option.bind_some] at hn
      cases hs : w.number? with
      | none =>
        rw [hs] at hn
        cases hn
      | some m =>
        rw [hs] at hn
        cases hn
        exact hs
  rw [Value.int?, number, Option.bind_some]
  cases hk : n.toInt? with
  | none =>
    rw [hk] at h
    cases h
  | some j =>
    rw [hk] at h
    cases h
    rfl

/-- Past the end the rule and the body start again at the same element. -/
theorem element_sound : element.Sound := by
  refine sound_of_rule rfl rfl (fun seen _ => ?_) fun ctx seen ret run h => ?_
  · refine (ends_requireSequence _ 0).bind fun _ _ => ?_
    split
    · split
      · exact ends_ite (fun _ => trivial) fun _ => trivial
      · trivial
    · trivial
  · have handed := (handed_of_declares run (f := element) (i := 0) (t := .dynamic) rfl).2
    have whole := ends_whole run (f := element) (i := 1) rfl
    simp only [element, elementBody]
    unfold elementTypeAt at h
    generalize argument seen 0 = w at handed h ⊢
    obtain ⟨_, kind, h⟩ := bind_eq_ok.1 h
    refine ends_ite (fun _ => rfl) fun nonempty => ?_
    refine whole.self.bind fun i hi => ends_ite (fun _ => rfl) fun positive => ?_
    have index := int?_of_wholeAt hi.1
    rcases handed.sequence_cases (kind_of_requireSequence kind) with ⟨e, es, m, rfl⟩ | ⟨es, m, rfl⟩
    · cases h
      cases handed.built with
      | list canonical typed parts =>
        have bound : i.toNat % es.length < es.length :=
          Nat.mod_lt _ (List.length_pos_iff.2
            (by simpa [Value.elements, Value.elements?] using nonempty))
        have mem : es.getD (i.toNat % es.length) .dynamic ∈ es := by
          rw [List.getD_eq_getElem _ _ bound]
          exact List.getElem_mem bound
        obtain ⟨u, hu, _⟩ := Value.fixed_of_matches (parts _ mem) canonical (typed _ mem)
        exact ⟨fun never => (by cases never), u, hu⟩
    · have elems : Value.elements (.sequence .tuple es m) = es := rfl
      have types : Value.ty (.sequence .tuple es m) = .tuple (es.map Value.ty) := ty_tuple es
      rw [elems] at nonempty ⊢
      simp only [types, index, List.isEmpty_map, List.length_map] at h
      split at h
      · next out => simp [nonempty, positive] at out
      · cases h
        refine ⟨fun never => (by cases never), _, Value.convert_of_same (.inr ?_)⟩
        have open_ : (.dynamic : Ty) = Value.ty .dynamic := rfl
        rw [open_, List.getD_map]

theorem ends_sliceBounds {length : Nat} (start : Ends (fun _ => True) (numberAt seen 1))
    (stop : Ends (fun _ => True) (numberAt seen 2)) :
    Ends (fun _ => True) (sliceBounds seen length) := by
  refine (ends_wholeAt start).bind fun i _ => (ends_wholeAt stop).bind fun j _ => ?_
  refine ends_ite (fun _ => rfl) fun _ => ends_ite (fun _ => rfl) fun _ => ?_
  exact ends_ite (fun _ => rfl) fun _ => ends_ite (fun _ => rfl) fun _ => trivial

theorem ends_bound (resolvable : slice.Resolvable seen) {i : Nat} (place : i = 1 ∨ i = 2)
    (known : (argument seen i).isUnknown = false) : Ends (fun _ => True) (numberAt seen i) := by
  have inside : i < seen.length := by
    have := Function.params_length_le resolvable.arity
    have three : slice.params.length = 3 := rfl
    omega
  have hw := List.getElem?_eq_getElem inside
  obtain ⟨p, hp, sees⟩ := resolvable.places i seen[i] hw
  have here : argument seen i = seen[i] := by
    rw [argument, List.getD_eq_getElem _ _ inside]
  rw [here] at known
  have number : p.ty = .number ∧ p.allow.null = false := by
    rcases place with rfl | rfl <;> cases hp <;> exact ⟨rfl, rfl⟩
  have present : seen[i].isNull = false := by
    have taken := sees.null
    rw [number.2] at taken
    simpa using taken
  exact Handed.number ⟨number.1 ▸ sees.typed, present, known, sees.built⟩ hw

theorem slice_sound : slice.Sound := by
  refine sound_of_rule rfl rfl (fun seen resolvable => ?_) fun ctx seen ret run h => ?_
  · refine (ends_requireSequence _ 0).bind fun _ _ => ?_
    dsimp only
    split
    · refine ends_ite (fun _ => trivial) fun known => ?_
      simp only [Bool.or_eq_true, not_or, Bool.not_eq_true] at known
      refine (ends_sliceBounds (ends_bound resolvable (.inl rfl) known.1)
        (ends_bound resolvable (.inr rfl) known.2)).bind fun _ _ => trivial
    · trivial
  · have handed := (handed_of_declares run (f := slice) (i := 0) (t := .dynamic) rfl).2
    have start := handed_of_declares run (f := slice) (i := 1) (t := .number) rfl
    have stop := handed_of_declares run (f := slice) (i := 2) (t := .number) rfl
    simp only [slice, sliceBody]
    unfold sliceType at h
    generalize argument seen 0 = w at handed h ⊢
    obtain ⟨_, kind, h⟩ := bind_eq_ok.1 h
    refine (ends_sliceBounds (start.2.number start.1) (stop.2.number stop.1)).self.bind fun b hb => ?_
    rcases handed.sequence_cases (kind_of_requireSequence kind) with ⟨e, es, m, rfl⟩ | ⟨es, m, rfl⟩
    · cases h
      exact honours_of_ty rfl rfl
    · have types : Value.ty (.sequence .tuple es m) = .tuple (es.map Value.ty) := ty_tuple es
      have bounds : sliceBounds seen es.length = .ok b := hb.1
      simp only [types, start.2.known, stop.2.known, Bool.or_self, Bool.false_eq_true, if_false,
        List.length_map, bounds] at h
      cases h
      refine honours_of_ty ?_ rfl
      simp [sequenceLike, ty_tuple, Value.elements, Value.elements?]

theorem flatten_sound : flatten.Sound := by
  refine sound_of_rule rfl rfl (fun seen _ => ?_) fun ctx seen ret run h => ?_
  · refine ends_ite (fun _ => rfl) fun _ => ends_ite (fun _ => trivial) fun _ => trivial
  · simp only [flatten]
    unfold flattenType at h
    dsimp only at h
    split at h
    · cases h
    · split at h
      · next open_ =>
        cases h
        rw [if_neg (by simpa using open_)]
        exact honours_unknownOf _
      · next whole =>
        cases h
        rw [if_pos (by simpa using whole)]
        exact honours_of_ty (ty_tuple _) rfl

theorem keys_sound : keys.Sound := by
  refine sound_of_rule rfl rfl (fun seen _ => ?_) fun ctx seen ret run h => ?_
  · refine (ends_requireMapping _ 0).bind fun _ _ => ?_
    split <;> trivial
  · have handed := (handed_of_declares run (f := keys) (i := 0) (t := .dynamic) rfl).2
    simp only [keys]
    unfold keysType at h
    generalize argument seen 0 = w at handed h ⊢
    obtain ⟨_, kind, h⟩ := bind_eq_ok.1 h
    rcases handed.mapping_cases (kind_of_requireMapping kind) with ⟨e, es, m, rfl⟩ | ⟨es, m, rfl⟩
    · cases h
      exact honours_of_ty rfl rfl
    · cases h
      refine honours_of_ty ?_ rfl
      simp [sequenceLike, ty_tuple, Value.entries, Value.entries?, Dict.keys, Function.comp_def,
        Value.string, Value.ty, Scalar.ty]

theorem values_sound : values.Sound := by
  refine sound_of_rule rfl rfl (fun seen _ => ?_) fun ctx seen ret run h => ?_
  · refine (ends_requireMapping _ 0).bind fun _ _ => ?_
    split <;> trivial
  · have handed := (handed_of_declares run (f := values) (i := 0) (t := .dynamic) rfl).2
    simp only [values]
    unfold valuesType at h
    generalize argument seen 0 = w at handed h ⊢
    obtain ⟨_, kind, h⟩ := bind_eq_ok.1 h
    rcases handed.mapping_cases (kind_of_requireMapping kind) with ⟨e, es, m, rfl⟩ | ⟨es, m, rfl⟩
    · cases h
      exact honours_of_ty rfl rfl
    · cases h
      refine honours_of_ty ?_ rfl
      simp [sequenceLike, ty_tuple, Value.entries, Value.entries?, Dict.values, Function.comp_def]

theorem wellFormed_of_runnable (run : f.Runnable seen) : ∀ a ∈ seen, a.WellFormed := by
  intro a ha
  obtain ⟨i, hi⟩ := List.mem_iff_getElem?.1 ha
  obtain ⟨p, _, sees⟩ := run.places i a hi
  exact sees.built

theorem types_of_runnable (run : f.Runnable seen) : ∀ a ∈ seen, a.ty.Canonical :=
  fun a ha => (wellFormed_of_runnable run a ha).canonical

theorem ends_lookupType (seen : List Value) : Ends (fun _ => True) (lookupType seen) := by
  refine ends_ite (fun _ => rfl) fun _ => (ends_requireMapping _ 0).bind fun _ _ => ?_
  dsimp only
  split
  · split
    · trivial
    · split
      · trivial
      · rfl
  · trivial
  · trivial

theorem wellFormed_entries {w : Value} (built : w.WellFormed) : ∀ x ∈ w.entries, x.2.WellFormed := by
  cases w with
  | mapping k es m => exact built.entries
  | _ => exact fun x hx => nomatch hx

theorem lookup_sound : lookup.Sound := by
  refine sound_of_rule rfl rfl (fun seen _ => ends_lookupType seen) fun ctx seen ret run h => ?_
  have canonical := lookupType_canonical (types_of_runnable run) h
  have first := (handed_of_declares run (f := lookup) (i := 0) (t := .dynamic) rfl).2
  simp only [lookup, lookupBody]
  refine (ends_text run (f := lookup) (i := 1) rfl).bind fun key _ => ?_
  split
  · next v found =>
    have built := wellFormed_entries first.built _ (Dict.mem_of_lookup found)
    exact (ends_convertAt 0 v ret).imp fun w hw => honours_of_convert rfl built canonical hw
  · next default _ hd =>
    have built := wellFormed_of_runnable run default (List.mem_of_getElem? hd)
    exact (ends_convertAt 2 default ret).imp fun w hw => honours_of_convert rfl built canonical hw
  · rfl

theorem zip_of_stringsFrom {place : Nat} {ks : List Value} {names : List String}
    (h : stringsFrom place ks = .ok names) {β : Type} (bs : List β) :
    ((ks.zip bs).filterMap fun (k, b) => k.string?.map fun s => (s, b)) = names.zip bs := by
  induction ks generalizing place names bs with
  | nil =>
    cases h
    rfl
  | cons k ks ih =>
    rw [stringsFrom] at h
    split at h
    · next s hs =>
      obtain ⟨rest, hrest, heq⟩ := bind_eq_ok.1 h
      cases heq
      cases bs with
      | nil => rfl
      | cons b bs =>
        rw [List.zip_cons_cons, List.zip_cons_cons, ← ih hrest bs]
        simp [hs]
    · cases h

theorem mapValues_zip (g : Value → Ty) (names : List String) (vs : List Value) :
    Dict.mapValues g (names.zip vs) = names.zip (vs.map g) := by
  induction names generalizing vs with
  | nil => rfl
  | cons n names ih =>
    cases vs with
    | nil => rfl
    | cons v vs => simpa [Dict.mapValues] using ih vs

theorem zipmap_sound : zipmap.Sound := by
  refine sound_of_rule rfl rfl (fun seen _ => ?_) fun ctx seen ret run h => ?_
  · unfold zipmapType
    split
    · trivial
    · split
      · exact ends_ite (fun _ => trivial) fun _ => trivial
      · trivial
    · rfl
  · have keyList := (handed_of_declares run (f := zipmap) (i := 0) (t := .list .string) rfl).2
    have handed := (handed_of_declares run (f := zipmap) (i := 1) (t := .dynamic) rfl).2
    simp only [zipmap, zipmapBody]
    unfold zipmapType at h
    obtain ⟨e, ks, m, hks⟩ := keyList.list_cases
    rw [hks] at h ⊢
    generalize argument seen 1 = w at handed h ⊢
    have elems : ∀ k es m, Value.elements (.sequence k es m) = es := fun _ _ _ => rfl
    refine ends_ite (fun _ => rfl) fun _ => ends_ite (fun _ => honours_unknownOf ret) fun known => ?_
    rw [elems] at known ⊢
    have known : ks.all Value.isKnown = true := by simpa using known
    cases names : stringsFrom 0 ks with
    | error place => rfl
    | ok names =>
      cases type : w.ty with
      | list e =>
        rw [type] at h
        cases h
        exact honours_of_ty rfl rfl
      | tuple ts =>
        rcases handed.sequence_cases (.inr (type ▸ rfl)) with ⟨e, es, m, rfl⟩ | ⟨es, m, rfl⟩
        · cases type
        · have types : Value.ty (.sequence .tuple es m) = .tuple (es.map Value.ty) := ty_tuple es
          simp only [types, Value.elements?, known, if_true, zip_of_stringsFrom names] at h
          cases h
          refine honours_of_ty ?_ rfl
          simp only [Ty.objectOf]
          rw [elems, ty_object, mapValues_zip]
          rfl
      | _ =>
        rw [type] at h
        cases h

theorem attributeTypes_of_handed {present : List Value}
    (known : ∀ a ∈ present, ∃ k es m, a = .mapping k es m) :
    allSome (present.map attributeTypesOf) =
      some (present.map fun a => Dict.mapValues Value.ty a.entries) := by
  rw [← Ty.allSome_map_some]
  congr 1
  refine List.map_congr_left fun a ha => ?_
  obtain ⟨k, es, m, rfl⟩ := known a ha
  cases k with
  | map e => rfl
  | object => simp [attributeTypesOf, Value.ty, Value.entries, Value.entries?, Dict.mapValues]

/-- The entries of several maps and objects make an object with the types of these entries. -/
theorem ty_mergedObject (present : List Value) :
    (Value.object (Dict.ofList (present.flatMap Value.entries))).ty =
      .objectOf (present.map fun a => Dict.mapValues Value.ty a.entries).flatten := by
  rw [ty_object, ← Dict.ofList_mapValues, Ty.objectOf,
    Dict.ofList_of_sorted (Dict.sorted_ofList _), Dict.mapValues, List.map_flatMap,
    List.flatMap_def]
  rfl

theorem ends_convertValues (e : Ty) (entries : Dict Value) :
    Ends (fun _ => True) (convertValues e entries) := by
  refine (ends_mapM (P := fun _ => True) fun x _ => ?_).imp fun _ _ => trivial
  have ends : Ends (fun _ => True) ((Value.convert x.2 e).mapError CallError.ofConversion) := by
    cases Value.convert x.2 e <;> trivial
  exact ends.bind fun _ _ => trivial

theorem merge_sound : merge.Sound := by
  refine sound_of_rule rfl rfl (fun seen _ => ?_) fun ctx seen ret run h => ?_
  · unfold mergeType
    split
    · rfl
    · dsimp only
      split
      · trivial
      · split <;> trivial
  · simp only [merge, mergeBody]
    unfold mergeType at h
    split at h
    · cases h
    · next fits =>
      have kinds := (find?_numbered_eq_none
        (p := fun v : Value => !(v.ty.isDynamic || v.ty.isMapping))).1 fits
      simp only [Bool.not_eq_eq_eq_not, Bool.not_false, Bool.or_eq_true] at kinds
      have mappings : ∀ a ∈ seen.filter (fun v => !v.isNull), ∃ k es m, a = .mapping k es m := by
        intro a ha
        obtain ⟨mem, present⟩ := List.mem_filter.1 ha
        obtain ⟨i, hi⟩ := List.mem_iff_getElem?.1 mem
        obtain ⟨p, hp, sees⟩ := run.places i a hi
        have known := run.known i a p hi hp
        have dynamic := sees.dynamicType
        have kind := kinds a mem
        cases hp
        have known : a.isUnknown = false := by simpa using known
        have kind : a.ty.isMapping = true := kind.resolve_left fun open_ => by
          simpa using dynamic (Ty.isDynamic_iff.1 open_)
        have handed : Handed .dynamic a := ⟨Ty.matches_dynamic _, by simpa using present, known,
          sees.built⟩
        rcases handed.mapping_cases kind with ⟨e, es, m, rfl⟩ | ⟨es, m, rfl⟩
        · exact ⟨.map e, es, m, rfl⟩
        · exact ⟨.object, es, m, rfl⟩
      dsimp only at h
      split at h
      · cases h
        exact (ends_convertValues _ _).bind fun entries _ => honours_of_ty rfl rfl
      · rw [attributeTypes_of_handed mappings] at h
        cases h
        exact honours_of_ty (ty_mergedObject _) rfl

theorem transpose_sound : transpose.Sound := by
  refine sound_of_fixed rfl rfl fun ctx seen run => ?_
  simp only [transpose, transposeBody]
  refine ends_ite (fun _ => honours_unknownOf _) fun _ => ?_
  split
  · rfl
  · exact honours_of_ty rfl rfl

theorem ends_coalesceFrom {ret : Ty} (canonical : ret.Canonical) (nullable : f.notNull = false)
    (built : ∀ a ∈ seen, a.WellFormed) (i : Nat) :
    Ends (f.Honours ret) (coalesceFrom ret i seen) := by
  induction seen generalizing i with
  | nil => rfl
  | cons a rest ih =>
    rw [coalesceFrom]
    refine (ends_convertAt i a ret).bind fun v hv => ?_
    refine ends_ite (fun _ => honours_unknownOf ret) fun _ => ends_ite (fun _ => ?_) fun _ => ?_
    · exact ih (fun b hb => built b (List.mem_cons_of_mem a hb)) (i + 1)
    · exact honours_of_convert nullable (built a List.mem_cons_self) canonical hv

theorem ends_coalescelistFrom {ret : Ty} (canonical : ret.Canonical) (nullable : f.notNull = false)
    (built : ∀ a ∈ seen, a.WellFormed) (i : Nat) :
    Ends (f.Honours ret) (coalescelistFrom ret i seen) := by
  induction seen generalizing i with
  | nil => rfl
  | cons a rest ih =>
    rw [coalescelistFrom]
    refine ends_ite (fun _ => honours_unknownOf ret) fun _ => ends_ite (fun _ => ?_) fun _ => ?_
    · exact (ends_convertAt i a ret).imp fun w hw =>
        honours_of_convert nullable (built a List.mem_cons_self) canonical hw
    · exact ih (fun b hb => built b (List.mem_cons_of_mem a hb)) (i + 1)

theorem coalesce_sound : coalesce.Sound := by
  refine sound_of_rule rfl rfl (fun seen _ => ?_) fun ctx seen ret run h => ?_
  · exact ends_ite (fun _ => rfl) fun _ => (ends_unifyArguments _ _).imp fun _ _ => trivial
  · have canonical : ret.Canonical := by
      unfold coalesceType at h
      split at h
      · cases h
      · rw [unifyArguments_eq_ok, map_snd_numbered] at h
        exact Ty.canonical_unify (List.forall_mem_map.2 (types_of_runnable run)) h
    exact ends_coalesceFrom canonical rfl (wellFormed_of_runnable run) 0

theorem coalescelist_sound : coalescelist.Sound := by
  refine sound_of_rule rfl rfl (fun seen _ => ?_) fun ctx seen ret run h => ?_
  · refine ends_ite (fun _ => rfl) fun _ => ?_
    dsimp only
    split
    · rfl
    · trivial
  · have canonical : ret.Canonical := by
      rw [eq_of_coalescelistType h]
      cases hu : Ty.unify (seen.map Value.ty) with
      | none => trivial
      | some u => exact Ty.canonical_unify (List.forall_mem_map.2 (types_of_runnable run)) hu
    exact ends_coalescelistFrom canonical rfl (wellFormed_of_runnable run) 0

theorem cast_sound (name : String) {target : Ty} (h : CastTarget target) :
    (cast name target).Sound := by
  refine sound_of_rule rfl rfl (fun seen _ => ?_) fun ctx seen ret run hret => ?_
  · dsimp only
    refine ends_ite (fun _ => trivial) fun _ => ?_
    split
    · trivial
    · rfl
  · have place : ∃ p, Sees p (argument seen 0) := by
      have inside : 0 < seen.length := Function.params_length_le run.arity
      have hw : seen[0]? = some (argument seen 0) := by
        rw [argument, List.getD_eq_getElem _ _ inside, List.getElem?_eq_getElem inside]
      obtain ⟨p, _, sees⟩ := run.places 0 _ hw
      exact ⟨p, sees⟩
    obtain ⟨_, sees⟩ := place
    have canonical : ret.Canonical := by
      dsimp only at hret
      split at hret
      · cases hret
        exact h.canonical
      · split at hret
        · next t ht =>
          cases hret
          exact Ty.canonical_conversionType sees.built.canonical h.canonical ht
        · cases hret
    simp only [cast]
    split
    · next w hw => exact honours_of_convert rfl sees.built canonical hw
    · rfl

theorem ends_setOperationType (args : List Value) :
    Ends (fun t => t = .set t.elementType) (setOperationType args) := by
  unfold setOperationType
  dsimp only
  refine ends_ite (fun _ => rfl) fun _ => ?_
  exact (ends_unifyArguments _ _).bind fun _ _ => rfl

theorem ends_combineFrom (ret : Ty) (op : SetOperation) (bearsUnknown : Bool) (i : Nat)
    (acc : Option (List Value)) (args : List Value) :
    Ends (fun _ => True) (combineFrom ret op bearsUnknown i acc args) := by
  induction args generalizing i acc with
  | nil => trivial
  | cons a rest ih =>
    rw [combineFrom]
    refine (ends_convertAt i a ret).bind fun v _ => ends_ite (fun _ => trivial) fun _ => ?_
    exact ih (i + 1) _

theorem ends_setBody (op : SetOperation) (bearsUnknown : Bool) (ctx : Context) {ret : Ty}
    (h : setOperationType seen = .ok ret) :
    Ends (f.Honours ret) (setBody op bearsUnknown ctx seen ret) := by
  have type : ret = .set ret.elementType := by
    have ends := ends_setOperationType seen
    rwa [h] at ends
  refine (ends_combineFrom ret op bearsUnknown 0 none seen).bind fun combined _ => ?_
  cases combined with
  | none => exact honours_unknownOf ret
  | some elems => exact honours_of_ty type.symm rfl

theorem setFunction_sound (name : String) (op : SetOperation) (bearsUnknown : Bool) :
    (setFunction name op bearsUnknown).Sound :=
  sound_of_rule rfl rfl (fun seen _ => (ends_setOperationType seen).imp fun _ _ => trivial)
    fun ctx _ _ _ h => ends_setBody op bearsUnknown ctx h

theorem setsubtract_sound : setsubtract.Sound :=
  sound_of_rule rfl rfl (fun seen _ => (ends_setOperationType seen).imp fun _ _ => trivial)
    fun ctx _ _ _ h => ends_setBody Value.subtract false ctx h

theorem honours_boolOrUnknown (b : Option Bool) : f.Honours .bool (boolOrUnknown b) := by
  cases b <;> exact honours_of_ty rfl rfl

theorem contains_sound : contains.Sound := by
  refine sound_of_fixed rfl rfl fun ctx seen run => ?_
  exact ends_ite (fun _ => rfl) fun _ => honours_boolOrUnknown _

theorem index_sound : index.Sound := by
  refine sound_of_fixed rfl rfl fun ctx seen run => ?_
  simp only [index, indexBody]
  refine ends_ite (fun _ => rfl) fun _ => ends_ite (fun _ => rfl) fun _ => ?_
  split
  · exact honours_of_ty rfl rfl
  · exact honours_unknownOf _
  · rfl

theorem boolList_sound (name : String) (stop nullCounts : Bool) :
    (boolList name stop nullCounts).Sound :=
  sound_of_fixed rfl rfl fun _ _ _ => honours_boolOrUnknown _

theorem length_sound : length.Sound := by
  refine sound_of_rule rfl rfl (fun seen _ => ?_) fun ctx seen ret run h => ?_
  · unfold lengthType
    split <;> trivial
  · have number : ret = .number := by
      unfold lengthType at h
      split at h <;> cases h
      rfl
    subst number
    simp only [length]
    split <;> exact honours_of_ty rfl rfl

theorem matchkeys_sound : matchkeys.Sound := by
  refine sound_of_rule rfl rfl (fun seen _ => ?_) fun ctx seen ret run h => ?_
  · exact (ends_unifyArguments _ _).bind fun _ _ => trivial
  · obtain ⟨_, _, first⟩ := bind_eq_ok.1 h
    have list : ret = .list ret.elementType := ret_of_typeOfFirst (f := matchkeys) run rfl first
    simp only [matchkeys, matchkeysBody]
    refine ends_ite (fun _ => rfl) fun _ => (ends_unifyArguments _ _).bind fun common _ => ?_
    refine (ends_convertAt 1 _ common).bind fun keys _ => ?_
    refine (ends_convertAt 2 _ common).bind fun searchset _ => ?_
    refine ends_ite (fun _ => honours_of_ty list.symm rfl) fun _ =>
      ends_ite (fun _ => honours_unknownOf ret) fun _ => ?_
    split
    · exact honours_of_ty list.symm rfl
    · exact honours_unknownOf ret

end MarkedValues.Standard
