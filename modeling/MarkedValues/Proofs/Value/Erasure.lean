import MarkedValues.Proofs.Value.Conversion

/-!
Content and marks apart. Erasing changes neither type nor state and commutes with conversion, so
marks have no say in what a conversion gives or why it fails.
-/
namespace MarkedValues

namespace MarkSet

@[simp] theorem empty_union (s : MarkSet) : ∅ ∪ s = s := by
  apply ext
  simp

@[simp] theorem union_empty (s : MarkSet) : s ∪ ∅ = s := by
  apply ext
  simp

@[simp] theorem union_self (s : MarkSet) : s ∪ s = s := by
  apply ext
  simp

theorem union_comm (s t : MarkSet) : s ∪ t = t ∪ s := by
  apply ext
  intro m
  rw [mem_union, mem_union, or_comm]

theorem union_eq_empty {s t : MarkSet} : s ∪ t = ∅ ↔ s = ∅ ∧ t = ∅ := by
  constructor
  · intro h
    have none : ∀ m, ¬ (m ∈ t ∨ m ∈ s) := by simp [← mem_union, h]
    constructor
    · apply ext
      intro m
      exact iff_of_false (fun hm => none m (.inr hm)) not_mem_empty
    · apply ext
      intro m
      exact iff_of_false (fun hm => none m (.inl hm)) not_mem_empty
  · rintro ⟨rfl, rfl⟩
    simp

end MarkSet

namespace Value

@[simp] theorem ty_erase (v : Value) : v.erase.ty = v.ty := by
  induction v with
  | sequence k es m ih =>
    cases k with
    | tuple => simpa [erase, ty] using ih
    | _ => rfl
  | mapping k es m ih =>
    cases k with
    | object => simpa [erase, ty] using ih
    | _ => rfl
  | _ => rfl

@[simp] theorem isNull_erase (v : Value) : v.erase.isNull = v.isNull := by
  cases v <;> rfl

@[simp] theorem isUnknown_erase (v : Value) : v.erase.isUnknown = v.isUnknown := by
  cases v <;> rfl

@[simp] theorem elements_erase (v : Value) : v.erase.elements = v.elements.map erase := by
  cases v <;> simp [erase, elements, elements?]

@[simp] theorem string?_erase (v : Value) : v.erase.string? = v.string? := by
  cases v with
  | scalar s m => cases s <;> rfl
  | _ => rfl

def Unmarked (v : Value) : Prop := v.allMarks = ∅

theorem marksOfEntries_eq_marksOfAll (es : List (String × Value)) :
    marksOfEntries es = marksOfAll (Dict.values es) := by
  induction es with
  | nil => rfl
  | cons x es ih => rw [marksOfEntries, ih]; rfl

theorem marksOfAll_eq_empty {vs : List Value} : marksOfAll vs = ∅ ↔ ∀ v ∈ vs, v.Unmarked := by
  induction vs with
  | nil => simp [marksOfAll]
  | cons v vs ih => simp [marksOfAll, MarkSet.union_eq_empty, ih, Unmarked]

theorem marksOfEntries_eq_empty {es : List (String × Value)} :
    marksOfEntries es = ∅ ↔ ∀ e ∈ es, e.2.Unmarked := by
  induction es with
  | nil => simp [marksOfEntries]
  | cons e es ih => simp [marksOfEntries, MarkSet.union_eq_empty, ih, Unmarked]

@[simp] theorem unmarked_null {t : Ty} {m : MarkSet} : (null t m).Unmarked ↔ m = ∅ := Iff.rfl

@[simp] theorem unmarked_unknown {t : Ty} {r : Bool} {m : MarkSet} :
    (unknown t r m).Unmarked ↔ m = ∅ :=
  Iff.rfl

@[simp] theorem unmarked_scalar {s : Scalar} {m : MarkSet} : (scalar s m).Unmarked ↔ m = ∅ :=
  Iff.rfl

@[simp] theorem unmarked_sequence {k : SequenceKind} {es : List Value} {m : MarkSet} :
    (sequence k es m).Unmarked ↔ m = ∅ ∧ ∀ v ∈ es, v.Unmarked := by
  simp [Unmarked, allMarks, MarkSet.union_eq_empty, marksOfAll_eq_empty]

@[simp] theorem unmarked_mapping {k : MappingKind} {es : List (String × Value)} {m : MarkSet} :
    (mapping k es m).Unmarked ↔ m = ∅ ∧ ∀ e ∈ es, e.2.Unmarked := by
  simp [Unmarked, allMarks, MarkSet.union_eq_empty, marksOfEntries_eq_empty]

@[simp] theorem unmarked_erase (v : Value) : v.erase.Unmarked := by
  induction v with
  | sequence k es m ih => simpa [erase] using ih
  | mapping k es m ih =>
    simp only [erase, eraseEntries_eq_map, unmarked_mapping, List.forall_mem_map]
    exact ⟨trivial, ih⟩
  | _ => simp [erase]

theorem erase_eq_self {v : Value} (h : v.Unmarked) : v.erase = v := by
  induction v with
  | sequence k es m ih =>
    obtain ⟨rfl, hes⟩ := unmarked_sequence.1 h
    simp only [erase, eraseAll_eq_map]
    rw [List.map_congr_left fun v hv => ih v hv (hes v hv)]
    simp
  | mapping k es m ih =>
    obtain ⟨rfl, hes⟩ := unmarked_mapping.1 h
    simp only [erase, eraseEntries_eq_map]
    rw [List.map_congr_left (g := id) fun e he => by simp [ih e he (hes e he)]]
    simp
  | _ =>
    cases h
    rfl

@[simp] theorem erase_erase (v : Value) : v.erase.erase = v.erase := erase_eq_self (unmarked_erase v)

@[simp] theorem erase_withMarks (v : Value) (m : MarkSet) : (v.withMarks m).erase = v.erase := by
  cases v <;> rfl

@[simp] theorem allMarks_withMarks (v : Value) (m : MarkSet) :
    (v.withMarks m).allMarks = v.allMarks ∪ m := by
  apply MarkSet.ext
  intro x
  cases v <;> simp [withMarks, setMarks, marks, allMarks, or_left_comm]

@[simp] theorem withMarks_empty (v : Value) : v.withMarks ∅ = v := by
  simp [withMarks]

theorem eraseEntries_eq_mapValues (es : List (String × Value)) :
    eraseEntries es = Dict.mapValues erase es := by
  simp [Dict.mapValues]

theorem erase_list (e : Ty) (vs : List Value) : (list e vs).erase = list e (vs.map erase) := by
  simp [list, erase]

theorem erase_tuple (vs : List Value) : (tuple vs).erase = tuple (vs.map erase) := by
  simp [tuple, erase]

theorem erase_map (e : Ty) (es : List (String × Value)) :
    (map e es).erase = map e (Dict.mapValues erase es) := by
  simp only [map, erase, eraseEntries_eq_mapValues, Dict.ofList_mapValues]

theorem erase_object (es : List (String × Value)) :
    (object es).erase = object (Dict.mapValues erase es) := by
  simp only [object, erase, eraseEntries_eq_mapValues, Dict.ofList_mapValues]

theorem perm_insertOrdered (v : Value) (vs : List Value) : (insertOrdered v vs).Perm (v :: vs) := by
  induction vs with
  | nil => exact .refl _
  | cons w ws ih =>
    rw [insertOrdered]
    split
    · exact .refl _
    · exact (ih.cons w).trans (.swap v w ws)

theorem perm_sort (vs : List Value) : (sort vs).Perm vs := by
  induction vs with
  | nil => exact .refl _
  | cons v vs ih => exact (perm_insertOrdered v (sort vs)).trans (ih.cons v)

theorem mem_dropRepeats {last w : Value} {vs : List Value} (h : w ∈ dropRepeats last vs) :
    w ∈ vs := by
  induction vs generalizing last with
  | nil => cases h
  | cons v vs ih =>
    rw [dropRepeats] at h
    split at h
    · exact List.mem_cons_of_mem _ (ih h)
    · rcases List.mem_cons.1 h with rfl | h
      · simp
      · exact List.mem_cons_of_mem _ (ih h)

theorem mem_normalize {w : Value} {vs : List Value} (h : w ∈ normalize vs) : w ∈ vs := by
  rw [← (perm_sort vs).mem_iff]
  unfold normalize at h
  cases hs : sort vs with
  | nil =>
    rw [hs] at h
    cases h
  | cons u us =>
    rw [hs] at h
    rcases List.mem_cons.1 h with rfl | h
    · simp
    · exact List.mem_cons_of_mem _ (mem_dropRepeats h)

theorem erase_set (e : Ty) (vs : List Value) : (set e vs).erase = set e (vs.map erase) := by
  have content : (normalize (vs.map erase)).map erase = normalize (vs.map erase) := by
    refine (List.map_congr_left fun w hw => ?_).trans (List.map_id _)
    obtain ⟨v, _, rfl⟩ := List.mem_map.1 (mem_normalize hw)
    exact erase_erase v
  have twice : (vs.map erase).map erase = vs.map erase := by simp
  have none : marksOfAll (vs.map erase) = ∅ := by simp [marksOfAll_eq_empty]
  simp only [set, erase, eraseAll_eq_map, content, twice, none]

theorem within_map (step : PathStep) (f : Value → Value) (x : Converted) :
    (Converted.within step (x.map f)) = (x.within step).map f := by
  cases x <;> rfl

theorem convertAll_erase {vs : List Value} (t : Ty) (i : Nat)
    (each : ∀ v ∈ vs, ∀ t, convert v.erase t = (convert v t).map erase) :
    convertAll (vs.map erase) i t = (convertAll vs i t).map (List.map erase) := by
  induction vs generalizing i with
  | nil => rfl
  | cons v vs ih =>
    have rest := ih (i + 1) fun u hu => each u (by simp [hu])
    simp only [List.map_cons, convertAll, each v (by simp), within_map, rest]
    cases (convert v t).within (.index i) with
    | error e => rfl
    | ok w => cases convertAll vs (i + 1) t <;> rfl

theorem convertEach_erase {vs : List Value} (ts : List Ty) (i : Nat)
    (each : ∀ v ∈ vs, ∀ t, convert v.erase t = (convert v t).map erase) :
    convertEach (vs.map erase) i ts = (convertEach vs i ts).map (List.map erase) := by
  induction vs generalizing i ts with
  | nil => rfl
  | cons v vs ih =>
    cases ts with
    | nil => rfl
    | cons t ts =>
      have rest := ih ts (i + 1) fun u hu => each u (by simp [hu])
      simp only [List.map_cons, convertEach, each v (by simp), within_map, rest]
      cases (convert v t).within (.index i) with
      | error e => rfl
      | ok w => cases convertEach vs (i + 1) ts <;> rfl

theorem convertEntries_erase {es : List (String × Value)} (t : Ty)
    (each : ∀ e ∈ es, ∀ t, convert e.2.erase t = (convert e.2 t).map erase) :
    convertEntries (Dict.mapValues erase es) t =
      (convertEntries es t).map (Dict.mapValues erase) := by
  induction es with
  | nil => rfl
  | cons e es ih =>
    have rest := ih fun u hu => each u (by simp [hu])
    have cons : Dict.mapValues erase (e :: es) = (e.1, e.2.erase) :: Dict.mapValues erase es := rfl
    simp only [cons, convertEntries, each e (by simp), within_map, rest]
    cases (convert e.2 t).within (.key e.1) with
    | error e => rfl
    | ok w => cases convertEntries es t <;> rfl

theorem convertAttrs_erase {es : List (String × Value)} (attrs : List (String × Ty))
    (each : ∀ e ∈ es, ∀ t, convert e.2.erase t = (convert e.2 t).map erase) :
    convertAttrs (converters (Dict.mapValues erase es)) attrs =
      (convertAttrs (converters es) attrs).map (Dict.mapValues erase) := by
  induction attrs with
  | nil => rfl
  | cons a attrs ih =>
    obtain ⟨k, t⟩ := a
    rw [convertAttrs, convertAttrs, lookup_converters, lookup_converters, Dict.lookup_mapValues]
    cases found : es.lookup k with
    | none => rfl
    | some v =>
      have hv := each (k, v) (Dict.mem_of_lookup found)
      simp only [Option.map_some, hv, within_map, ih]
      cases (convert v t).within (.key k) with
      | error e => rfl
      | ok w => cases convertAttrs (converters es) attrs <;> rfl

theorem convertTo_erase_sequence {es : List Value} (u : Ty) (k : SequenceKind) (m : MarkSet)
    (each : ∀ v ∈ es, ∀ t, convert v.erase t = (convert v t).map erase) :
    convertTo u (sequence k es m).erase = (convertTo u (sequence k es m)).map erase := by
  have hty := ty_erase (sequence k es m)
  simp only [erase, eraseAll_eq_map] at hty ⊢
  cases u with
  | list e =>
    simp only [convertTo, convertAll_erase e 0 each]
    cases convertAll es 0 e with
    | error e => rfl
    | ok ws => simp [bind, Except.bind, Except.map, erase_list]
  | set e =>
    simp only [convertTo, convertAll_erase e 0 each]
    cases convertAll es 0 e with
    | error e => rfl
    | ok ws => simp [bind, Except.bind, Except.map, erase_set]
  | tuple ts =>
    simp only [convertTo, convertEach_erase ts 0 each, List.length_map]
    split
    · rfl
    · cases convertEach es 0 ts with
      | error e => rfl
      | ok ws => simp [bind, Except.bind, Except.map, erase_tuple]
  | _ =>
    simp only [convertTo, hty]
    rfl

theorem convertTo_erase_mapping {es : List (String × Value)} (u : Ty) (k : MappingKind)
    (m : MarkSet) (each : ∀ e ∈ es, ∀ t, convert e.2.erase t = (convert e.2 t).map erase) :
    convertTo u (mapping k es m).erase = (convertTo u (mapping k es m)).map erase := by
  have hty := ty_erase (mapping k es m)
  simp only [erase, eraseEntries_eq_mapValues] at hty ⊢
  cases u with
  | map e =>
    simp only [convertTo, convertEntries_erase e each]
    cases convertEntries es e with
    | error e => rfl
    | ok ws => simp [bind, Except.bind, Except.map, erase_map]
  | object attrs =>
    have keys : unexpectedKey? (Dict.mapValues erase es) attrs = unexpectedKey? es attrs := by
      simp [unexpectedKey?]
    simp only [convertTo, keys, convertAttrs_erase attrs each]
    split
    · rfl
    · cases convertAttrs (converters es) attrs with
      | error e => rfl
      | ok ws => simp [bind, Except.bind, Except.map, erase_object]
  | _ =>
    simp only [convertTo, hty]
    rfl

theorem convert_erase_of {v : Value}
    (content : ∀ u, convertTo u v.erase = (convertTo u v).map erase) (t : Ty) :
    convert v.erase t = (convert v t).map erase := by
  by_cases same : t = .dynamic ∨ v.ty = t
  · rw [convert_of_same same, convert_of_same (by rwa [ty_erase])]
    rfl
  · rw [convert_of_ne same, convert_of_ne (by rwa [ty_erase]), ty_erase]
    cases Ty.conversionType v.ty t with
    | none => rfl
    | some u => exact content u

/-- Conversion does not look at marks: without them it fails with the same error or
    gives the same content. -/
theorem convert_erase (v : Value) (t : Ty) : convert v.erase t = (convert v t).map erase := by
  induction v generalizing t with
  | null s m => exact convert_erase_of (fun u => rfl) t
  | unknown s r m => exact convert_erase_of (fun u => rfl) t
  | scalar s m =>
    refine convert_erase_of (fun u => ?_) t
    simp only [erase, convertTo]
    cases hw : convertScalar s u with
    | error e => rfl
    | ok w =>
      obtain ⟨c, rfl, _⟩ := scalar_of_convertScalar hw
      rfl
  | sequence k es m ih =>
    exact convert_erase_of (fun u => convertTo_erase_sequence u k m fun v hv t => ih v hv t) t
  | mapping k es m ih =>
    exact convert_erase_of (fun u => convertTo_erase_mapping u k m fun e he t => ih e he t) t

theorem Unmarked.convert {v w : Value} {t : Ty} (h : v.Unmarked) (hw : v.convert t = .ok w) :
    w.Unmarked := by
  have same := convert_erase v t
  rw [erase_eq_self h, hw] at same
  have eq : w = w.erase := Except.ok.inj same
  rw [eq]
  exact unmarked_erase w

end Value

end MarkedValues
