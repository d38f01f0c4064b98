import MarkedValues.Proofs.Value.Stability

/-!
Values after their unknowns have been resolved. Every unknown, at any depth, gives way to a wholly
known value that fits it, null only if the unknown might become null, and the containers around it
are built anew; a set may so be put in another order, and elements of it may merge.
-/
namespace MarkedValues.Value

open MarkedValues.Lists

/-- The second value is the first with each unknown replaced by a wholly known value that fits its
    type and its marks. -/
inductive Completes (fits : Ty → MarkSet → Value → Prop) : Value → Value → Prop
  | null {t : Ty} {m : MarkSet} : Completes fits (.null t m) (.null t m)
  | unknown {t : Ty} {r : Bool} {m : MarkSet} {w : Value} (whole : w.isWhollyKnown = true)
    (present : r = true → w.isNull = false) (fit : fits t m w) : Completes fits (.unknown t r m) w
  | scalar {s : Scalar} {m : MarkSet} : Completes fits (.scalar s m) (.scalar s m)
  | list {e : Ty} {es es' : List Value} {m : MarkSet}
    (parts : List.Forall₂ (Completes fits) es es') :
    Completes fits (.sequence (.list e) es m) (.sequence (.list e) es' m)
  | set {e : Ty} {es es' : List Value} {m : MarkSet}
    (parts : List.Forall₂ (Completes fits) es es') :
    Completes fits (.sequence (.set e) es m) ((Value.set e es').withMarks m)
  | tuple {es es' : List Value} {m : MarkSet} (parts : List.Forall₂ (Completes fits) es es') :
    Completes fits (.sequence .tuple es m) (.sequence .tuple es' m)
  | mapping {k : MappingKind} {es es' : List (String × Value)} {m : MarkSet}
    (keys : Dict.keys es' = Dict.keys es)
    (parts : List.Forall₂ (Completes fits) (Dict.values es) (Dict.values es')) :
    Completes fits (.mapping k es m) (.mapping k es' m)

/-- An unknown of open type may turn out to be anything, every other keeps its type. -/
def FitsType (t : Ty) (_ : MarkSet) (w : Value) : Prop := t = .dynamic ∨ w.ty = t

def SameType (t : Ty) (_ : MarkSet) (w : Value) : Prop := w.ty = t

def SameTypeAndMarks (t : Ty) (m : MarkSet) (w : Value) : Prop := w.ty = t ∧ w.allMarks = m

theorem ty_mapping_congr {k : MappingKind} {xs ys : List (String × Value)} {m n : MarkSet}
    (keys : Dict.keys xs = Dict.keys ys)
    (types : (Dict.values xs).map Value.ty = (Dict.values ys).map Value.ty) :
    Value.ty (.mapping k xs m) = Value.ty (.mapping k ys n) := by
  have fields : Dict.mapValues Value.ty xs = Dict.mapValues Value.ty ys := by
    refine Dict.ext ?_ ?_
    · rw [Dict.keys_mapValues, Dict.keys_mapValues, keys]
    · rw [Dict.values_mapValues, Dict.values_mapValues, types]
  cases k with
  | map e => rfl
  | object =>
    simp only [Value.ty, tyEntries_eq_map]
    exact congrArg Ty.object fields

namespace Completes

variable {fits : Ty → MarkSet → Value → Prop}

theorem imp {fits' : Ty → MarkSet → Value → Prop} (imp : ∀ t m w, fits t m w → fits' t m w)
    {v v' : Value} (h : Completes fits v v') : Completes fits' v v' := by
  induction v generalizing v' with
  | null t m =>
    cases h with
    | null => exact .null
  | unknown t r m =>
    cases h with
    | unknown whole present fit => exact .unknown whole present (imp t m v' fit)
  | scalar s m =>
    cases h with
    | scalar => exact .scalar
  | sequence k es m ih =>
    cases h with
    | list parts => exact .list (forall₂_imp_left (fun v hv w hw => ih v hv hw) parts)
    | set parts => exact .set (forall₂_imp_left (fun v hv w hw => ih v hv hw) parts)
    | tuple parts => exact .tuple (forall₂_imp_left (fun v hv w hw => ih v hv hw) parts)
  | mapping k es m ih =>
    cases h with
    | mapping keys parts =>
      refine .mapping keys (forall₂_imp_left (List.forall_mem_map.2 fun x hx w hw => ?_) parts)
      exact ih x hx hw

theorem sequence_cases {k : SequenceKind} {es : List Value} {m : MarkSet} {v' : Value}
    (h : Completes fits (.sequence k es m) v') :
    ∃ es', List.Forall₂ (Completes fits) es es' ∧
      ((∀ e, k ≠ .set e) ∧ v' = .sequence k es' m ∨
        ∃ e, k = .set e ∧ v' = (Value.set e es').withMarks m) := by
  cases h with
  | list parts => exact ⟨_, parts, .inl ⟨nofun, rfl⟩⟩
  | set parts => exact ⟨_, parts, .inr ⟨_, rfl, rfl⟩⟩
  | tuple parts => exact ⟨_, parts, .inl ⟨nofun, rfl⟩⟩

theorem exists_sequence {k : SequenceKind} {es : List Value} {m : MarkSet} {v' : Value}
    (h : Completes fits (.sequence k es m) v') : ∃ es' m', v' = .sequence k es' m' := by
  obtain ⟨es', _, ⟨_, rfl⟩ | ⟨e, rfl, rfl⟩⟩ := h.sequence_cases
  · exact ⟨es', m, rfl⟩
  · exact ⟨_, _, rfl⟩

theorem isUnknown_of_isWhollyKnown {v : Value} (whole : v.isWhollyKnown = true) :
    v.isUnknown = false := by
  cases v <;> first | rfl | cases whole

theorem isUnknown {v v' : Value} (h : Completes fits v v') : v'.isUnknown = false := by
  cases h with
  | unknown whole _ _ => exact isUnknown_of_isWhollyKnown whole
  | set _ => rw [isUnknown_withMarks]; rfl
  | _ => rfl

theorem isNull {v v' : Value} (h : Completes fits v v') (known : v.isUnknown = false) :
    v'.isNull = v.isNull := by
  cases h with
  | unknown _ _ _ => cases known
  | set _ => rw [isNull_withMarks]; rfl
  | _ => rfl

theorem present {v v' : Value} (h : Completes fits v v') (refined : v.isRefinedNotNull = true) :
    v'.isNull = false := by
  cases h with
  | unknown _ present _ => exact present refined
  | _ => cases refined

theorem eq_of_parts {vs vs' : List Value} (eq : ∀ v ∈ vs, ∀ w, Completes fits v w → w = v)
    (h : List.Forall₂ (Completes fits) vs vs') : vs' = vs := by
  have all : List.Forall₂ (fun v w => w = v) vs vs' := forall₂_imp_left eq h
  exact eq_of_forall₂ (fun _ _ _ h => h) all.flip

/-- A wholly known value stays as it is. -/
theorem eq_of_isWhollyKnown {v v' : Value} (canonical : v.Canonical)
    (whole : v.isWhollyKnown = true) (h : Completes fits v v') : v' = v := by
  induction v generalizing v' with
  | null t m =>
    cases h with
    | null => rfl
  | unknown t r m => cases whole
  | scalar s m =>
    cases h with
    | scalar => rfl
  | sequence k es m ih =>
    cases canonical with
    | sequence content parts =>
      simp only [isWhollyKnown, allWhollyKnown_eq_all, List.all_eq_true] at whole
      have same : ∀ v ∈ es, ∀ w, Completes fits v w → w = v :=
        fun v hv w hw => ih v hv (parts v hv) (whole v hv) hw
      cases h with
      | list completed => rw [eq_of_parts same completed]
      | @set e _ _ _ completed =>
        rw [eq_of_parts same completed]
        exact (content e rfl).set_withMarks e m
      | tuple completed => rw [eq_of_parts same completed]
  | mapping k es m ih =>
    cases canonical with
    | mapping parts =>
      simp only [isWhollyKnown, entriesWhollyKnown_eq_all, List.all_eq_true] at whole
      cases h with
      | mapping keys completed =>
        have values := eq_of_parts
          (List.forall_mem_map.2 fun x hx w hw => ih x hx (parts x hx) (whole x hx) hw) completed
        rw [Dict.ext keys values]

theorem types_eq {vs vs' : List Value}
    (each : ∀ v ∈ vs, ∀ w, Completes fits v w → w.ty = v.ty)
    (h : List.Forall₂ (Completes fits) vs vs') : vs'.map ty = vs.map ty :=
  (map_eq_of_forall₂ (forall₂_imp_left (fun v hv w hw => (each v hv w hw).symm) h)).symm

theorem ty {v v' : Value} (exact : ∀ t m w, fits t m w → w.ty = t) (h : Completes fits v v') :
    v'.ty = v.ty := by
  induction v generalizing v' with
  | null t m =>
    cases h with
    | null => rfl
  | unknown t r m =>
    cases h with
    | unknown _ _ fit => exact exact t m v' fit
  | scalar s m =>
    cases h with
    | scalar => rfl
  | sequence k es m ih =>
    cases h with
    | list _ => rfl
    | set _ => rw [ty_withMarks]; rfl
    | tuple parts =>
      have types := types_eq (fun v hv w hw => ih v hv hw) parts
      simp only [Value.ty, tyAll_eq_map, types]
  | mapping k es m ih =>
    cases h with
    | mapping keys parts =>
      exact ty_mapping_congr keys (types_eq (List.forall_mem_map.2 fun x hx w hw => ih x hx hw) parts)

@[simp] theorem isWhollyKnown_erase (v : Value) : v.erase.isWhollyKnown = v.isWhollyKnown := by
  induction v with
  | sequence k es m ih =>
    simp only [Value.erase, isWhollyKnown, eraseAll_eq_map, allWhollyKnown_eq_all, List.all_map]
    rw [Bool.eq_iff_iff, List.all_eq_true, List.all_eq_true]
    exact forall₂_congr fun v hv => by rw [Function.comp_apply, ih v hv]
  | mapping k es m ih =>
    simp only [Value.erase, isWhollyKnown, eraseEntries_eq_map, entriesWhollyKnown_eq_all,
      List.all_map]
    rw [Bool.eq_iff_iff, List.all_eq_true, List.all_eq_true]
    exact forall₂_congr fun x hx => by rw [Function.comp_apply, ih x hx]
  | _ => rfl

theorem erase {fits' : Ty → MarkSet → Value → Prop}
    (erased : ∀ t m w, fits t m w → fits' t ∅ w.erase) {v v' : Value} (h : Completes fits v v') :
    Completes fits' v.erase v'.erase := by
  have map : ∀ {vs vs' : List Value},
      (∀ v ∈ vs, ∀ w, Completes fits v w → Completes fits' v.erase w.erase) →
      List.Forall₂ (Completes fits) vs vs' →
      List.Forall₂ (Completes fits') (vs.map Value.erase) (vs'.map Value.erase) := by
    intro vs vs' each h
    rw [List.forall₂_map_left_iff, List.forall₂_map_right_iff]
    exact forall₂_imp_left each h
  induction v generalizing v' with
  | null t m =>
    cases h with
    | null => exact .null
  | unknown t r m =>
    cases h with
    | unknown whole present fit =>
      refine .unknown ?_ ?_ (erased t m v' fit)
      · rwa [isWhollyKnown_erase]
      · rwa [isNull_erase]
  | scalar s m =>
    cases h with
    | scalar => exact .scalar
  | sequence k es m ih =>
    cases h with
    | list parts =>
      simp only [Value.erase, eraseAll_eq_map]
      exact .list (map (fun v hv w hw => ih v hv hw) parts)
    | @set e _ es' _ parts =>
      have built := Completes.set (e := e) (m := ∅) (map (fun v hv w hw => ih v hv hw) parts)
      rw [withMarks_empty] at built
      rw [erase_withMarks, erase_set]
      simpa only [Value.erase, eraseAll_eq_map] using built
    | tuple parts =>
      simp only [Value.erase, eraseAll_eq_map]
      exact .tuple (map (fun v hv w hw => ih v hv hw) parts)
  | mapping k es m ih =>
    cases h with
    | @mapping _ _ es' _ keys parts =>
      simp only [Value.erase, eraseEntries_eq_mapValues]
      refine .mapping ?_ ?_
      · rw [Dict.keys_mapValues, Dict.keys_mapValues, keys]
      · rw [Dict.values_mapValues, Dict.values_mapValues]
        exact map (List.forall_mem_map.2 fun x hx w hw => ih x hx hw) parts

theorem allMarks {v v' : Value} (exact : ∀ t m w, fits t m w → w.allMarks = m)
    (h : Completes fits v v') : v'.allMarks = v.allMarks := by
  induction v generalizing v' with
  | null t m =>
    cases h with
    | null => rfl
  | unknown t r m =>
    cases h with
    | unknown _ _ fit => exact exact t m v' fit
  | scalar s m =>
    cases h with
    | scalar => rfl
  | sequence k es m ih =>
    cases h with
    | list parts =>
      rw [Value.allMarks, Value.allMarks, marksOfAll_eq parts fun v hv w hw => ih v hv hw]
    | set parts =>
      rw [allMarks_withMarks, allMarks_set, marksOfAll_eq parts fun v hv w hw => ih v hv hw,
        Value.allMarks, MarkSet.union_comm]
    | tuple parts =>
      rw [Value.allMarks, Value.allMarks, marksOfAll_eq parts fun v hv w hw => ih v hv hw]
  | mapping k es m ih =>
    cases h with
    | mapping keys parts =>
      have marks := marksOfAll_eq parts (List.forall_mem_map.2 fun x hx w hw => ih x hx hw)
      rw [Value.allMarks, Value.allMarks, marksOfEntries_eq_marksOfAll,
        marksOfEntries_eq_marksOfAll, marks]

end Completes

theorem SetContent.erase_parts {es : List Value} (h : SetContent es) : es.map Value.erase = es :=
  (List.map_congr_left fun v hv => erase_eq_self (h.unmarked v hv)).trans (List.map_id es)

theorem Canonical.erase {v : Value} (h : v.Canonical) : v.erase.Canonical := by
  induction v with
  | null t m => exact .null
  | unknown t r m => exact .unknown
  | scalar s m => exact .scalar
  | sequence k es m ih =>
    cases h with
    | sequence content parts =>
      simp only [Value.erase, eraseAll_eq_map]
      refine .sequence (fun e he => ?_) (List.forall_mem_map.2 fun v hv => ih v hv (parts v hv))
      rw [(content e he).erase_parts]
      exact content e he
  | mapping k es m ih =>
    cases h with
    | mapping parts =>
      simp only [Value.erase, eraseEntries_eq_map]
      exact .mapping (List.forall_mem_map.2 fun x hx => ih x hx (parts x hx))

end MarkedValues.Value
