import MarkedValues.Proofs.Ty.Keeping
import MarkedValues.Proofs.Value.Erasure

/-!
Values whose parts are what the value declares them to be, and what a conversion that keeps all
parts of such a value makes of them.
-/
namespace MarkedValues.Value

open Outcomes
open Ty (Keeps Matches)

/-- The elements of a collection have its element type, but for open parts of it that each fills in
    its own way, and keys and names ascend. -/
inductive WellFormed : Value → Prop
  | null {t : Ty} {m : MarkSet} (canonical : t.Canonical) : WellFormed (.null t m)
  | unknown {t : Ty} {r : Bool} {m : MarkSet} (canonical : t.Canonical) :
    WellFormed (.unknown t r m)
  | scalar {s : Scalar} {m : MarkSet} : WellFormed (.scalar s m)
  | list {e : Ty} {es : List Value} {m : MarkSet} (canonical : e.Canonical)
    (typed : ∀ v ∈ es, Matches v.ty e) (parts : ∀ v ∈ es, WellFormed v) :
    WellFormed (.sequence (.list e) es m)
  | set {e : Ty} {es : List Value} {m : MarkSet} (canonical : e.Canonical)
    (typed : ∀ v ∈ es, Matches v.ty e) (parts : ∀ v ∈ es, WellFormed v) :
    WellFormed (.sequence (.set e) es m)
  | tuple {es : List Value} {m : MarkSet} (parts : ∀ v ∈ es, WellFormed v) :
    WellFormed (.sequence .tuple es m)
  | map {e : Ty} {es : List (String × Value)} {m : MarkSet} (canonical : e.Canonical)
    (sorted : Dict.Sorted es) (typed : ∀ x ∈ es, Matches x.2.ty e)
    (parts : ∀ x ∈ es, WellFormed x.2) : WellFormed (.mapping (.map e) es m)
  | object {es : List (String × Value)} {m : MarkSet} (sorted : Dict.Sorted es)
    (parts : ∀ x ∈ es, WellFormed x.2) : WellFormed (.mapping .object es m)

theorem sorted_types {es : List (String × Value)} (sorted : Dict.Sorted es) :
    Dict.Sorted (es.map fun x => (x.1, x.2.ty)) :=
  sorted.of_keys_eq (Dict.keys_mapValues ty es)

namespace WellFormed

theorem elements {k : SequenceKind} {es : List Value} {m : MarkSet}
    (h : WellFormed (.sequence k es m)) : ∀ v ∈ es, v.WellFormed := by
  cases h with
  | list _ _ parts => exact parts
  | set _ _ parts => exact parts
  | tuple parts => exact parts

theorem entries {k : MappingKind} {es : List (String × Value)} {m : MarkSet}
    (h : WellFormed (.mapping k es m)) : ∀ x ∈ es, x.2.WellFormed := by
  cases h with
  | map _ _ _ parts => exact parts
  | object _ parts => exact parts

theorem sorted {k : MappingKind} {es : List (String × Value)} {m : MarkSet}
    (h : WellFormed (.mapping k es m)) : Dict.Sorted es := by
  cases h with
  | map _ sorted _ _ => exact sorted
  | object sorted _ => exact sorted

theorem canonical {v : Value} (h : v.WellFormed) : v.ty.Canonical := by
  induction v with
  | null t m =>
    cases h
    assumption
  | unknown t r m =>
    cases h
    assumption
  | scalar s m => cases s <;> trivial
  | sequence k es m ih =>
    cases h with
    | list canonical _ _ => exact canonical
    | set canonical _ _ => exact canonical
    | tuple parts =>
      simp only [ty, tyAll_eq_map, Ty.Canonical, Ty.canonicalAll_iff, List.forall_mem_map]
      exact fun v hv => ih v hv (parts v hv)
  | mapping k es m ih =>
    cases h with
    | map canonical _ _ _ => exact canonical
    | object sorted parts =>
      simp only [ty, tyEntries_eq_map, Ty.Canonical, Ty.canonicalAttrs_iff, List.forall_mem_map]
      exact ⟨sorted_types sorted, fun x hx => ih x hx (parts x hx)⟩

end WellFormed

theorem typed_element {k : SequenceKind} {es : List Value} {m : MarkSet}
    (wf : WellFormed (.sequence k es m)) {v : Value} (hv : v ∈ es) :
    ∃ f ∈ (Value.ty (.sequence k es m)).sequenceElems, Matches v.ty f := by
  cases wf with
  | @list e _ _ _ typed _ => exact ⟨e, List.mem_singleton.2 rfl, typed v hv⟩
  | @set e _ _ _ typed _ => exact ⟨e, List.mem_singleton.2 rfl, typed v hv⟩
  | tuple _ =>
    refine ⟨v.ty, ?_, Matches.refl v.ty⟩
    simpa [ty, Ty.sequenceElems] using ⟨v, hv, rfl⟩

theorem typed_entry {k : MappingKind} {es : List (String × Value)} {m : MarkSet}
    (wf : WellFormed (.mapping k es m)) {x : String × Value} (hx : x ∈ es) :
    ∃ f ∈ (Value.ty (.mapping k es m)).mappingElems, Matches x.2.ty f := by
  cases wf with
  | @map e _ _ _ _ typed _ => exact ⟨e, List.mem_singleton.2 rfl, typed x hx⟩
  | object _ _ =>
    refine ⟨x.2.ty, ?_, Matches.refl x.2.ty⟩
    simpa [ty, Ty.mappingElems, Dict.values] using ⟨x.1, x.2, hx, rfl⟩

theorem keeps_element {k : SequenceKind} {es : List Value} {m : MarkSet} {t e : Ty}
    (wf : WellFormed (.sequence k es m)) (made : t.IsSequenceOf e)
    (h : Keeps (Value.ty (.sequence k es m)) t) {v : Value} (hv : v ∈ es) : Keeps v.ty e := by
  obtain ⟨f, hf, filled⟩ := typed_element wf hv
  exact (h.sequenceElems made f hf).of_matches filled

theorem keeps_entry {k : MappingKind} {es : List (String × Value)} {m : MarkSet} {e : Ty}
    (wf : WellFormed (.mapping k es m)) (h : Keeps (Value.ty (.mapping k es m)) (.map e))
    {x : String × Value} (hx : x ∈ es) : Keeps x.2.ty e := by
  obtain ⟨f, hf, filled⟩ := typed_entry wf hx
  exact (h.mappingElems f hf).of_matches filled

/-- A part of a value with what has become of it, nothing of it being dropped. -/
def KeptPart (v w : Value) : Prop := ∃ t, t.Canonical ∧ Keeps v.ty t ∧ convert v t = .ok w

theorem getElem?_of_convertedEach {vs ws : List Value} {ts : List Ty} (h : ConvertedEach vs ts ws)
    {i : Nat} {v w : Value} (hv : vs[i]? = some v) (hw : ws[i]? = some w) :
    ∃ t, ts[i]? = some t ∧ convert v t = .ok w := by
  induction h generalizing i with
  | nil => cases hv
  | @cons v' w' t _ _ _ hconv _ ih =>
    cases i with
    | zero =>
      cases hv
      cases hw
      exact ⟨t, rfl, hconv⟩
    | succ i => exact ih hv hw

theorem length_of_convertedEach {vs ws : List Value} {ts : List Ty} (h : ConvertedEach vs ts ws) :
    vs.length = ws.length := by
  induction h with
  | nil => rfl
  | cons _ _ ih => simp [ih]

theorem keys_of_convertedEntries {es ws : List (String × Value)} {t : Ty}
    (h : List.Forall₂ (ConvertedEntry t) es ws) : Dict.keys ws = Dict.keys es := by
  induction h with
  | nil => rfl
  | cons hw _ ih =>
    simp only [Dict.keys, List.map_cons, hw.1] at ih ⊢
    rw [ih]

theorem names_of_convertedAttrs {es ws : List (String × Value)} {attrs : List (String × Ty)}
    (h : List.Forall₂ (ConvertedAttr es) attrs ws) (sorted : Dict.Sorted es)
    (ascending : Dict.Sorted attrs) (names : ∀ k ∈ Dict.keys es, k ∈ Dict.keys attrs) :
    Dict.keys attrs = Dict.keys es := by
  refine MarkSet.eq_of_ascending_of_mem_iff ascending sorted fun k => ⟨fun hk => ?_, names k⟩
  obtain ⟨a, ha, rfl⟩ := List.mem_map.1 hk
  obtain ⟨w, _, _, v, found, _⟩ := Lists.exists_of_mem_right h.flip ha
  exact List.mem_map_of_mem (Dict.mem_of_lookup found)

theorem parts_of_sequence {k : SequenceKind} {es : List Value} {m : MarkSet} {t : Ty} {w : Value}
    (wf : WellFormed (.sequence k es m)) (canonical : t.Canonical)
    (keeps : Keeps (Value.ty (.sequence k es m)) t) (h : Converts (.sequence k es m) t w) :
    w = .sequence k es m ∨ ∃ ws, List.Forall₂ KeptPart es ws ∧
      ((∃ e, w = (list e ws).withMarks m) ∨ (∃ e, w = (set e ws).withMarks m) ∨
        w = (tuple ws).withMarks m) := by
  have target : ∀ {u : Ty}, Ty.conversionType (Value.ty (.sequence k es m)) t = some u →
      u.Canonical := Ty.canonical_conversionType wf.canonical canonical
  cases h with
  | same _ => exact .inl rfl
  | @list _ _ ws _ _ e hu parts =>
    have elem : e.Canonical := Ty.canonical_list.1 (target hu)
    have kept := keeps.conversionType hu
    refine .inr ⟨ws, Lists.forall₂_imp_left (fun v hv w hw => ?_) parts, .inl ⟨e, rfl⟩⟩
    exact ⟨e, elem, keeps_element wf (.inl rfl) kept hv, hw⟩
  | @set _ _ ws _ _ e hu parts =>
    have elem : e.Canonical := Ty.canonical_set.1 (target hu)
    have kept := keeps.conversionType hu
    refine .inr ⟨ws, Lists.forall₂_imp_left (fun v hv w hw => ?_) parts, .inr (.inl ⟨e, rfl⟩)⟩
    exact ⟨e, elem, keeps_element wf (.inr rfl) kept hv, hw⟩
  | @tuple _ _ ws _ _ ts hu parts =>
    have places : ∀ t ∈ ts, t.Canonical := Ty.canonicalAll_iff.1 (target hu)
    obtain ⟨fs, shape, _, kept⟩ := (keeps.conversionType hu).tupleElems
    refine .inr ⟨ws, Lists.forall₂_of_getElem? (length_of_convertedEach parts) ?_, .inr (.inr rfl)⟩
    intro i v w hv hw
    obtain ⟨t, ht, hconv⟩ := getElem?_of_convertedEach parts hv hw
    cases k with
    | list f => cases shape
    | set f => cases shape
    | tuple =>
      simp only [ty, tyAll_eq_map, Ty.tuple.injEq] at shape
      subst shape
      have place : (es.map ty)[i]? = some v.ty := by simp [hv]
      exact ⟨t, places t (List.mem_of_getElem? ht), kept i v.ty t place ht, hconv⟩

theorem parts_of_mapping {k : MappingKind} {es : List (String × Value)} {m : MarkSet} {t : Ty}
    {w : Value} (wf : WellFormed (.mapping k es m)) (canonical : t.Canonical)
    (keeps : Keeps (Value.ty (.mapping k es m)) t) (h : Converts (.mapping k es m) t w) :
    w = .mapping k es m ∨ ∃ ws, Dict.keys ws = Dict.keys es ∧
      List.Forall₂ KeptPart (Dict.values es) (Dict.values ws) ∧
      ((∃ e, w = (map e ws).withMarks m) ∨ w = (object ws).withMarks m) := by
  have target : ∀ {u : Ty}, Ty.conversionType (Value.ty (.mapping k es m)) t = some u →
      u.Canonical := Ty.canonical_conversionType wf.canonical canonical
  cases h with
  | same _ => exact .inl rfl
  | @map _ _ ws _ _ e hu parts =>
    have elem : e.Canonical := Ty.canonical_map.1 (target hu)
    have kept := keeps.conversionType hu
    refine .inr ⟨ws, keys_of_convertedEntries parts, ?_, .inl ⟨e, rfl⟩⟩
    rw [Dict.values, Dict.values, List.forall₂_map_left_iff, List.forall₂_map_right_iff]
    refine Lists.forall₂_imp_left (fun x hx w hw => ?_) parts
    exact ⟨e, elem, keeps_entry wf kept hx, hw.2⟩
  | @object _ _ ws _ _ attrs hu parts _ =>
    have names : (Ty.object attrs).Canonical := target hu
    obtain ⟨fields, shape, asked, kept⟩ := (keeps.conversionType hu).objectAttrs
    cases k with
    | map f => cases shape
    | object =>
      have types : fields = Dict.mapValues ty es := by
        simpa [ty, Dict.mapValues, eq_comm] using shape
      subst types
      rw [Dict.keys_mapValues] at asked
      have keys := names_of_convertedAttrs parts wf.sorted names.1 asked
      have len : es.length = ws.length := by
        simpa [Dict.keys, parts.length_eq] using (congrArg List.length keys).symm
      refine .inr ⟨ws, (keys_of_convertedAttrs parts).trans keys, ?_, .inr rfl⟩
      rw [Dict.values, Dict.values, List.forall₂_map_left_iff, List.forall₂_map_right_iff]
      refine Lists.forall₂_of_getElem? len fun i x w hx hw => ?_
      obtain ⟨a, ha, _, v, found, hconv⟩ := Lists.forall₂_getElem? parts.flip hw
      have name : a.1 = x.1 := by
        have here := congrArg (fun ks : List String => ks[i]?) keys
        simpa [Dict.keys, ha, hx] using here
      have mem : (x.1, x.2) ∈ es := List.mem_of_getElem? hx
      rw [name, Dict.lookup_of_mem wf.sorted mem] at found
      cases found
      have asks : a ∈ attrs := List.mem_of_getElem? ha
      have given : attrs.lookup x.1 = some a.2 := by
        rw [← name]
        exact Dict.lookup_of_mem names.1 asks
      have field : (Dict.mapValues ty es).lookup x.1 = some x.2.ty := by
        rw [Dict.lookup_mapValues, Dict.lookup_of_mem wf.sorted mem]
        rfl
      exact ⟨a.2, Ty.canonicalAttrs_iff.1 names.2 a asks, kept x.1 x.2.ty a.2 field given, hconv⟩

theorem marksOfAll_eq {R : Value → Value → Prop} {vs ws : List Value} (h : List.Forall₂ R vs ws)
    (each : ∀ v ∈ vs, ∀ w, R v w → w.allMarks = v.allMarks) : marksOfAll ws = marksOfAll vs := by
  induction h with
  | nil => rfl
  | cons hw _ ih =>
    rw [marksOfAll, marksOfAll, each _ (by simp) _ hw, ih fun v hv => each v (by simp [hv])]

theorem allMarks_list (e : Ty) (es : List Value) : (list e es).allMarks = marksOfAll es :=
  MarkSet.empty_union _

theorem allMarks_tuple (es : List Value) : (tuple es).allMarks = marksOfAll es :=
  MarkSet.empty_union _

theorem allMarks_set (e : Ty) (es : List Value) : (set e es).allMarks = marksOfAll es := by
  have content : marksOfAll (normalize (es.map erase)) = ∅ := by
    refine marksOfAll_eq_empty.2 fun w hw => ?_
    obtain ⟨v, _, rfl⟩ := List.mem_map.1 (mem_normalize hw)
    exact unmarked_erase v
  rw [set, allMarks, content, MarkSet.union_empty]

theorem allMarks_map (e : Ty) {es : List (String × Value)} (sorted : Dict.Sorted es) :
    (map e es).allMarks = marksOfAll (Dict.values es) := by
  rw [map, allMarks, Dict.ofList_of_sorted sorted, MarkSet.empty_union, marksOfEntries_eq_marksOfAll]

theorem allMarks_object {es : List (String × Value)} (sorted : Dict.Sorted es) :
    (object es).allMarks = marksOfAll (Dict.values es) := by
  rw [object, allMarks, Dict.ofList_of_sorted sorted, MarkSet.empty_union,
    marksOfEntries_eq_marksOfAll]

end MarkedValues.Value
