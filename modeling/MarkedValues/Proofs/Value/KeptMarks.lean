import MarkedValues.Proofs.Value.WellFormed

/-!
The marks that a conversion keeps. A mark stands in a value at some depth, and it is lost only where
an object is converted to one without the attribute that it stands in. What the target leaves open
is filled in before anything is converted; that does not change what is kept, because a type that is
filled in names every attribute it was found from.
-/
namespace MarkedValues.Value

open MarkedValues.Lists Outcomes
open Ty (Keeps Matches ElementTarget conversionType)

variable {x : Mark} {v : Value} {t : Ty}

theorem mem_marksOfAll {vs : List Value} : x ∈ marksOfAll vs ↔ ∃ v ∈ vs, x ∈ v.allMarks := by
  induction vs with
  | nil => simp [marksOfAll, MarkSet.not_mem_empty]
  | cons v vs ih => rw [marksOfAll, MarkSet.mem_union, ih, or_comm, List.exists_mem_cons_iff]

theorem mem_marksOfEntries {es : List (String × Value)} :
    x ∈ marksOfEntries es ↔ ∃ p ∈ es, x ∈ p.2.allMarks := by
  induction es with
  | nil => simp [marksOfEntries, MarkSet.not_mem_empty]
  | cons p es ih => rw [marksOfEntries, MarkSet.mem_union, ih, or_comm, List.exists_mem_cons_iff]

theorem mem_allMarks : x ∈ v.allMarks ↔
    x ∈ v.marks ∨ (∃ p ∈ v.elements, x ∈ p.allMarks) ∨ ∃ p ∈ v.entries, x ∈ p.2.allMarks := by
  cases v with
  | sequence k es m =>
    rw [allMarks, MarkSet.mem_union, mem_marksOfAll]
    simp [marks, elements, elements?, entries, entries?, or_comm]
  | mapping k es m =>
    rw [allMarks, MarkSet.mem_union, mem_marksOfEntries]
    simp [marks, elements, elements?, entries, entries?, or_comm]
  | _ => simp [allMarks, marks, elements, elements?, entries, entries?]

namespace WellFormed

theorem of_mem_elements (wf : v.WellFormed) {p : Value} (hp : p ∈ v.elements) : p.WellFormed := by
  cases v with
  | sequence k es m => exact wf.elements p hp
  | _ => cases hp

theorem of_mem_entries (wf : v.WellFormed) {p : String × Value} (hp : p ∈ v.entries) :
    p.2.WellFormed := by
  cases v with
  | mapping k es m => exact wf.entries p hp
  | _ => cases hp

end WellFormed

theorem isSequence_of_mem {p : Value} (hp : p ∈ v.elements) : v.ty.isSequence = true := by
  cases v with
  | sequence k es m => cases k <;> rfl
  | _ => cases hp

theorem isMapping_of_mem {p : String × Value} (hp : p ∈ v.entries) : v.ty.isMapping = true := by
  cases v with
  | mapping k es m => cases k <;> rfl
  | _ => cases hp

theorem ty_of_place {fs : List Ty} (type : v.ty = .tuple fs) {i : Nat} {p : Value}
    (hp : v.elements[i]? = some p) : fs[i]? = some p.ty := by
  cases v with
  | sequence k es m =>
    cases k with
    | tuple =>
      simp only [ty, tyAll_eq_map, Ty.tuple.injEq] at type
      have place : es[i]? = some p := hp
      rw [← type, List.getElem?_map, place]
      rfl
    | list e => cases type
    | set e => cases type
  | _ => cases hp

theorem ty_of_name (wf : v.WellFormed) {fields : List (String × Ty)} (type : v.ty = .object fields)
    {p : String × Value} (hp : p ∈ v.entries) : fields.lookup p.1 = some p.2.ty := by
  cases v with
  | mapping k es m =>
    cases k with
    | object =>
      have fields_eq : fields = Dict.mapValues ty es := by
        simpa [ty, Dict.mapValues, eq_comm] using type
      have member : (p.1, p.2) ∈ es := hp
      rw [fields_eq, Dict.lookup_mapValues, Dict.lookup_of_mem wf.sorted member]
      rfl
    | map e => cases type
  | _ => cases hp

/-- The mark stands in the value, and not in an attribute that the target drops. -/
inductive KeptMark (x : Mark) : Value → Ty → Prop
  | top {v : Value} {t : Ty} (mem : x ∈ v.marks) : KeptMark x v t
  | whole {v : Value} {t : Ty} (partless : (t.isPrimitive || t.isDynamic) = true)
    (mem : x ∈ v.allMarks) : KeptMark x v t
  | element {v p : Value} {t e : Ty} (made : t.IsSequenceOf e) (hp : p ∈ v.elements)
    (kept : KeptMark x p e) : KeptMark x v t
  | place {v p : Value} {ts : List Ty} {t : Ty} {i : Nat} (hp : v.elements[i]? = some p)
    (ht : ts[i]? = some t) (kept : KeptMark x p t) : KeptMark x v (.tuple ts)
  | entry {v : Value} {p : String × Value} {e : Ty} (hp : p ∈ v.entries)
    (kept : KeptMark x p.2 e) : KeptMark x v (.map e)
  | attr {v : Value} {p : String × Value} {attrs : List (String × Ty)} {t : Ty}
    (hp : p ∈ v.entries) (ht : attrs.lookup p.1 = some t) (kept : KeptMark x p.2 t) :
    KeptMark x v (.object attrs)

namespace KeptMark

theorem mem_allMarks (h : KeptMark x v t) : x ∈ v.allMarks := by
  induction h with
  | top mem => exact Value.mem_allMarks.2 (.inl mem)
  | whole _ mem => exact mem
  | element _ hp _ ih => exact Value.mem_allMarks.2 (.inr (.inl ⟨_, hp, ih⟩))
  | place hp _ _ ih => exact Value.mem_allMarks.2 (.inr (.inl ⟨_, List.mem_of_getElem? hp, ih⟩))
  | entry hp _ ih => exact Value.mem_allMarks.2 (.inr (.inr ⟨_, hp, ih⟩))
  | attr hp _ _ ih => exact Value.mem_allMarks.2 (.inr (.inr ⟨_, hp, ih⟩))

theorem sequence_iff {e : Ty} (made : t.IsSequenceOf e) :
    KeptMark x v t ↔ x ∈ v.marks ∨ ∃ p ∈ v.elements, KeptMark x p e := by
  constructor
  · intro h
    cases h with
    | top mem => exact .inl mem
    | whole partless _ => rcases made with rfl | rfl <;> cases partless
    | element made' hp kept =>
      rcases made with rfl | rfl <;> rcases made' with same | same <;> cases same
      all_goals exact .inr ⟨_, hp, kept⟩
    | place _ _ _ => rcases made with same | same <;> cases same
    | entry _ _ => rcases made with same | same <;> cases same
    | attr _ _ _ => rcases made with same | same <;> cases same
  · rintro (mem | ⟨p, hp, kept⟩)
    · exact .top mem
    · exact .element made hp kept

theorem tuple_iff {ts : List Ty} : KeptMark x v (.tuple ts) ↔
    x ∈ v.marks ∨ ∃ (i : Nat) (p : Value) (t : Ty),
      v.elements[i]? = some p ∧ ts[i]? = some t ∧ KeptMark x p t := by
  constructor
  · intro h
    cases h with
    | top mem => exact .inl mem
    | whole partless _ => cases partless
    | element made _ _ => rcases made with same | same <;> cases same
    | place hp ht kept => exact .inr ⟨_, _, _, hp, ht, kept⟩
  · rintro (mem | ⟨i, p, t, hp, ht, kept⟩)
    · exact .top mem
    · exact .place hp ht kept

theorem map_iff {e : Ty} :
    KeptMark x v (.map e) ↔ x ∈ v.marks ∨ ∃ p ∈ v.entries, KeptMark x p.2 e := by
  constructor
  · intro h
    cases h with
    | top mem => exact .inl mem
    | whole partless _ => cases partless
    | element made _ _ => rcases made with same | same <;> cases same
    | entry hp kept => exact .inr ⟨_, hp, kept⟩
  · rintro (mem | ⟨p, hp, kept⟩)
    · exact .top mem
    · exact .entry hp kept

theorem object_iff {attrs : List (String × Ty)} : KeptMark x v (.object attrs) ↔
    x ∈ v.marks ∨ ∃ p ∈ v.entries, ∃ t, attrs.lookup p.1 = some t ∧ KeptMark x p.2 t := by
  constructor
  · intro h
    cases h with
    | top mem => exact .inl mem
    | whole partless _ => cases partless
    | element made _ _ => rcases made with same | same <;> cases same
    | attr hp ht kept => exact .inr ⟨_, hp, _, ht, kept⟩
  · rintro (mem | ⟨p, hp, t, ht, kept⟩)
    · exact .top mem
    · exact .attr hp ht kept

theorem flat_iff (flat : v.allMarks = v.marks) : KeptMark x v t ↔ x ∈ v.marks := by
  constructor
  · intro h
    rw [← flat]
    exact h.mem_allMarks
  · exact .top

end KeptMark

section

variable (wf : v.WellFormed)

include wf

theorem keeps_of_mem_elements {e : Ty} (made : t.IsSequenceOf e) (keeps : Keeps v.ty t) {p : Value}
    (hp : p ∈ v.elements) : Keeps p.ty e := by
  cases v with
  | sequence k es m => exact keeps_element wf made keeps hp
  | _ => cases hp

theorem keeps_of_mem_entries {e : Ty} (keeps : Keeps v.ty (.map e)) {p : String × Value}
    (hp : p ∈ v.entries) : Keeps p.2.ty e := by
  cases v with
  | mapping k es m => exact keeps_entry wf keeps hp
  | _ => cases hp

/-- A target that keeps every part keeps every mark. -/
theorem keptMark_of_keeps (keeps : Keeps v.ty t) (mem : x ∈ v.allMarks) : KeptMark x v t := by
  induction t generalizing v with
  | string | number | bool | dynamic => exact .whole rfl mem
  | list e ih =>
    rcases mem_allMarks.1 mem with top | ⟨p, hp, mem⟩ | ⟨p, hp, _⟩
    · exact .top top
    · have keeps := keeps_of_mem_elements wf (.inl rfl) keeps hp
      exact .element (.inl rfl) hp (ih (wf.of_mem_elements hp) keeps mem)
    · exact absurd (isMapping_of_mem hp) (Ty.not_isMapping_of_isSequence (keeps.isSequence rfl))
  | set e ih =>
    rcases mem_allMarks.1 mem with top | ⟨p, hp, mem⟩ | ⟨p, hp, _⟩
    · exact .top top
    · have keeps := keeps_of_mem_elements wf (.inr rfl) keeps hp
      exact .element (.inr rfl) hp (ih (wf.of_mem_elements hp) keeps mem)
    · exact absurd (isMapping_of_mem hp) (Ty.not_isMapping_of_isSequence (keeps.isSequence rfl))
  | map e ih =>
    rcases mem_allMarks.1 mem with top | ⟨p, hp, _⟩ | ⟨p, hp, mem⟩
    · exact .top top
    · exact absurd (keeps.isMapping rfl) (Ty.not_isMapping_of_isSequence (isSequence_of_mem hp))
    · exact .entry hp (ih (wf.of_mem_entries hp) (keeps_of_mem_entries wf keeps hp) mem)
  | tuple ts ih =>
    obtain ⟨fs, type, len, each⟩ := keeps.tupleElems
    rcases mem_allMarks.1 mem with top | ⟨p, hp, mem⟩ | ⟨p, hp, _⟩
    · exact .top top
    · obtain ⟨i, place⟩ := List.mem_iff_getElem?.1 hp
      have hf := ty_of_place type place
      obtain ⟨inside, _⟩ := List.getElem?_eq_some_iff.1 hf
      have ht : ts[i]? = some ts[i] := List.getElem?_eq_getElem (len ▸ inside)
      have keeps := each i p.ty ts[i] hf ht
      exact .place place ht (ih _ (List.mem_of_getElem? ht) (wf.of_mem_elements hp) keeps mem)
    · exact absurd (isMapping_of_mem hp) (Ty.not_isMapping_of_isSequence (keeps.isSequence rfl))
  | object attrs ih =>
    obtain ⟨fields, type, names, each⟩ := keeps.objectAttrs
    rcases mem_allMarks.1 mem with top | ⟨p, hp, _⟩ | ⟨p, hp, mem⟩
    · exact .top top
    · exact absurd (keeps.isMapping rfl) (Ty.not_isMapping_of_isSequence (isSequence_of_mem hp))
    · have hf := ty_of_name wf type hp
      obtain ⟨t, ht⟩ := Dict.exists_lookup (names _ (List.mem_map_of_mem (Dict.mem_of_lookup hf)))
      have keeps := each p.1 p.2.ty t hf ht
      exact .attr hp ht (ih _ (Dict.mem_of_lookup ht) (wf.of_mem_entries hp) keeps mem)

end

theorem conversionType_of_dynamic {s t u : Ty} (open_ : s = .dynamic)
    (h : conversionType s t = some u) : u = t := by
  subst open_
  cases t <;> simp [conversionType, Ty.isDynamic] at h <;> exact h.symm

section

variable {s : Ty} (wf : v.WellFormed) (filled : Matches v.ty s) (settled : s ≠ .dynamic)

include wf filled settled

theorem matches_element {p : Value} (hp : p ∈ v.elements) :
    ∃ f ∈ s.sequenceElems, Matches p.ty f := by
  have sequence := isSequence_of_mem hp
  cases v with
  | sequence k es m =>
    obtain ⟨g, hg, inner⟩ := typed_element wf hp
    obtain ⟨f, hf, outer⟩ := Ty.matches_sequenceElems filled (filled.isSequence settled sequence) hg
    exact ⟨f, hf, inner.trans outer⟩
  | _ => cases hp

theorem matches_entry {p : String × Value} (hp : p ∈ v.entries) :
    ∃ f ∈ s.mappingElems, Matches p.2.ty f := by
  have mapping := isMapping_of_mem hp
  cases v with
  | mapping k es m =>
    obtain ⟨g, hg, inner⟩ := typed_entry wf hp
    obtain ⟨f, hf, outer⟩ := Ty.matches_mappingElems filled (filled.isMapping settled mapping) hg
    exact ⟨f, hf, inner.trans outer⟩
  | _ => cases hp

theorem matches_place {fs : List Ty} (sources : ∀ f ∈ fs, f ∈ s.sequenceElems)
    (places : s.isTuple = true → fs = s.tupleElems) {i : Nat} {p : Value} {f : Ty}
    (hp : v.elements[i]? = some p) (hf : fs[i]? = some f) : Matches p.ty f := by
  obtain ⟨g, hg, inner⟩ := matches_element wf filled settled (List.mem_of_getElem? hp)
  have member := sources f (List.mem_of_getElem? hf)
  cases s with
  | list e | set e =>
    rw [List.mem_singleton.1 member]
    rwa [List.mem_singleton.1 hg] at inner
  | tuple ss =>
    obtain ⟨gs, type, each⟩ := filled
    obtain ⟨t, ht, place⟩ := forall₂_getElem? (Ty.matchesAll_iff.1 each) (ty_of_place type hp)
    rw [places rfl] at hf
    cases ht.symm.trans hf
    exact place
  | _ => cases member

theorem matches_name {source : String → Option Ty}
    (sources : ∀ k f, source k = some f → f ∈ s.mappingElems)
    (names : s.isObject = true → source = (s.objectAttrs.lookup ·)) {p : String × Value} {f : Ty}
    (hp : p ∈ v.entries) (hf : source p.1 = some f) : Matches p.2.ty f := by
  obtain ⟨g, hg, inner⟩ := matches_entry wf filled settled hp
  have member := sources p.1 f hf
  cases s with
  | map e =>
    rw [List.mem_singleton.1 member]
    rwa [List.mem_singleton.1 hg] at inner
  | object fields =>
    obtain ⟨gs, type, each⟩ := filled
    obtain ⟨t, ht, named⟩ := Ty.matches_lookup (Ty.matchesAttrs_iff.1 each) (ty_of_name wf type hp)
    rw [names rfl] at hf
    cases ht.symm.trans hf
    exact named
  | _ => cases member

end

/-- The element type that is found instead of one left open keeps as much of an element. -/
theorem keptMark_elementTarget {sources : List Ty} {e u : Ty} (target : ElementTarget sources e u)
    {f : Ty} (hf : f ∈ sources) (wf : v.WellFormed) (filled : Matches v.ty f)
    (each : ∀ u, conversionType f e = some u → (KeptMark x v u ↔ KeptMark x v e)) :
    KeptMark x v u ↔ KeptMark x v e := by
  cases target with
  | given => exact Iff.rfl
  | @single g _ only hu =>
    rw [only, List.mem_singleton] at hf
    subst hf
    exact each u hu
  | open_ whole _ => rw [whole]
  | common whole common =>
    subst whole
    have keeps := (Ty.keeps_unify common f hf).of_matches filled
    constructor
    · exact fun kept => .whole rfl kept.mem_allMarks
    · exact fun kept => keptMark_of_keeps wf keeps kept.mem_allMarks

section

variable {s u : Ty} (wf : v.WellFormed) (filled : Matches v.ty s)

include wf filled

theorem keptMark_filled_sequence {e : Ty} (made : t.IsSequenceOf e)
    (each : ∀ {p : Value} {f u : Ty}, p.WellFormed → Matches p.ty f → conversionType f e = some u →
      (KeptMark x p u ↔ KeptMark x p e)) (hu : conversionType s t = some u) :
    KeptMark x v u ↔ KeptMark x v t := by
  by_cases settled : s = .dynamic
  · rw [conversionType_of_dynamic settled hu]
  · obtain ⟨e', shape, target⟩ := Ty.conversionType_sequence made hu
    have made' : u.IsSequenceOf e' := shape.imp And.right And.right
    rw [KeptMark.sequence_iff made', KeptMark.sequence_iff made]
    refine or_congr_right (exists_congr fun p => and_congr_right fun hp => ?_)
    obtain ⟨f, hf, inner⟩ := matches_element wf filled settled hp
    have built := wf.of_mem_elements hp
    exact keptMark_elementTarget target hf built inner fun _ hu => each built inner hu

theorem keptMark_filled_map {e : Ty}
    (each : ∀ {p : Value} {f u : Ty}, p.WellFormed → Matches p.ty f → conversionType f e = some u →
      (KeptMark x p u ↔ KeptMark x p e)) (hu : conversionType s (.map e) = some u) :
    KeptMark x v u ↔ KeptMark x v (.map e) := by
  by_cases settled : s = .dynamic
  · rw [conversionType_of_dynamic settled hu]
  · obtain ⟨e', rfl, target⟩ := Ty.conversionType_map hu
    rw [KeptMark.map_iff, KeptMark.map_iff]
    refine or_congr_right (exists_congr fun p => and_congr_right fun hp => ?_)
    obtain ⟨f, hf, inner⟩ := matches_entry wf filled settled hp
    have built := wf.of_mem_entries hp
    exact keptMark_elementTarget target hf built inner fun _ hu => each built inner hu

theorem keptMark_filled_tuple {ts : List Ty}
    (each : ∀ t ∈ ts, ∀ {p : Value} {f u : Ty}, p.WellFormed → Matches p.ty f →
      conversionType f t = some u → (KeptMark x p u ↔ KeptMark x p t))
    (hu : conversionType s (.tuple ts) = some u) : KeptMark x v u ↔ KeptMark x v (.tuple ts) := by
  by_cases settled : s = .dynamic
  · rw [conversionType_of_dynamic settled hu]
  rcases Ty.conversionType_tuple hu with rfl | ⟨fs, us, rfl, len, sources, places, hus⟩
  · exact Iff.rfl
  have fitting := Ty.conversionTypes_matches len (fun _ _ _ _ => Ty.conversionType_matches) hus
  have count := fitting.length_eq
  have place {i : Nat} {p : Value} {w t : Ty} (hp : v.elements[i]? = some p) (hw : us[i]? = some w)
      (ht : ts[i]? = some t) : KeptMark x p w ↔ KeptMark x p t := by
    obtain ⟨f, t', hf, ht', hw⟩ := Ty.conversionTypes_getElem? len hus hw
    obtain rfl := Option.some.inj (ht.symm.trans ht')
    have built := wf.of_mem_elements (List.mem_of_getElem? hp)
    have inner := matches_place wf filled settled sources places hp hf
    exact each t (List.mem_of_getElem? ht) built inner hw
  rw [KeptMark.tuple_iff, KeptMark.tuple_iff]
  refine or_congr_right (exists_congr fun i => exists_congr fun p => ?_)
  constructor
  · rintro ⟨w, hp, hw, kept⟩
    obtain ⟨inside, _⟩ := List.getElem?_eq_some_iff.1 hw
    have ht : ts[i]? = some ts[i] := List.getElem?_eq_getElem (count ▸ inside)
    exact ⟨ts[i], hp, ht, (place hp hw ht).1 kept⟩
  · rintro ⟨t, hp, ht, kept⟩
    obtain ⟨inside, _⟩ := List.getElem?_eq_some_iff.1 ht
    have hw : us[i]? = some us[i] := List.getElem?_eq_getElem (count ▸ inside)
    exact ⟨us[i], hp, hw, (place hp hw ht).2 kept⟩

theorem keptMark_filled_object {attrs : List (String × Ty)}
    (each : ∀ a ∈ attrs, ∀ {p : Value} {f u : Ty}, p.WellFormed → Matches p.ty f →
      conversionType f a.2 = some u → (KeptMark x p u ↔ KeptMark x p a.2))
    (hu : conversionType s (.object attrs) = some u) :
    KeptMark x v u ↔ KeptMark x v (.object attrs) := by
  by_cases settled : s = .dynamic
  · rw [conversionType_of_dynamic settled hu]
  rcases Ty.conversionType_object hu with rfl | ⟨source, us, rfl, sources, names, hus⟩
  · exact Iff.rfl
  have keys := Ty.keys_of_conversionAttrs hus
  have named {p : String × Value} {w t : Ty} (hp : p ∈ v.entries) (hw : us.lookup p.1 = some w)
      (ht : attrs.lookup p.1 = some t) : KeptMark x p.2 w ↔ KeptMark x p.2 t := by
    obtain ⟨f, t', hf, ht', hw⟩ := Ty.conversionAttrs_lookup hus hw
    obtain rfl := Option.some.inj (ht.symm.trans ht')
    have inner := matches_name wf filled settled sources names hp hf
    exact each _ (Dict.mem_of_lookup ht) (wf.of_mem_entries hp) inner hw
  rw [KeptMark.object_iff, KeptMark.object_iff]
  refine or_congr_right (exists_congr fun p => and_congr_right fun hp => ?_)
  constructor
  · rintro ⟨w, hw, kept⟩
    have name : p.1 ∈ Dict.keys attrs := keys ▸ List.mem_map_of_mem (Dict.mem_of_lookup hw)
    obtain ⟨t, ht⟩ := Dict.exists_lookup name
    exact ⟨t, ht, (named hp hw ht).1 kept⟩
  · rintro ⟨t, ht, kept⟩
    have name : p.1 ∈ Dict.keys us := keys ▸ List.mem_map_of_mem (Dict.mem_of_lookup ht)
    obtain ⟨w, hw⟩ := Dict.exists_lookup name
    exact ⟨w, hw, (named hp hw ht).2 kept⟩

end

/-- A target that is filled in from the type of a value keeps as much of it as before. -/
theorem keptMark_filled {s u : Ty} (wf : v.WellFormed) (filled : Matches v.ty s)
    (hu : conversionType s t = some u) : KeptMark x v u ↔ KeptMark x v t := by
  induction t generalizing v s u with
  | dynamic =>
    cases hu
    constructor
    · exact fun kept => .whole rfl kept.mem_allMarks
    · exact fun kept => keptMark_of_keeps wf (Ty.keeps_of_matches filled) kept.mem_allMarks
  | string | number | bool => rw [show u = _ from Ty.conversionType_matches hu]
  | list e ih => exact keptMark_filled_sequence wf filled (.inl rfl) ih hu
  | set e ih => exact keptMark_filled_sequence wf filled (.inr rfl) ih hu
  | map e ih => exact keptMark_filled_map wf filled ih hu
  | tuple ts ih => exact keptMark_filled_tuple wf filled ih hu
  | object attrs ih => exact keptMark_filled_object wf filled ih hu

theorem exists_mem_iff_of_forall₂ {α β : Type} {R : α → β → Prop} {P : α → Prop} {Q : β → Prop}
    {xs : List α} {ys : List β} (h : List.Forall₂ R xs ys)
    (each : ∀ x ∈ xs, ∀ y, R x y → (Q y ↔ P x)) : (∃ y ∈ ys, Q y) ↔ ∃ x ∈ xs, P x := by
  constructor
  · rintro ⟨y, hy, holds⟩
    obtain ⟨x, hx, hxy⟩ := exists_of_mem_right h hy
    exact ⟨x, hx, (each x hx y hxy).1 holds⟩
  · rintro ⟨x, hx, holds⟩
    obtain ⟨y, hy, hxy⟩ := exists_of_mem_right h.flip hx
    exact ⟨y, hy, (each x hx y hxy).2 holds⟩

theorem mem_marksOfAll_convertedEach {es ws : List Value} {ts : List Ty}
    (h : ConvertedEach es ts ws)
    (each : ∀ v ∈ es, ∀ t ∈ ts, ∀ w, convert v t = .ok w → (x ∈ w.allMarks ↔ KeptMark x v t)) :
    x ∈ marksOfAll ws ↔
      ∃ (i : Nat) (p : Value) (t : Ty), es[i]? = some p ∧ ts[i]? = some t ∧ KeptMark x p t := by
  have count := length_of_convertedEach h
  rw [mem_marksOfAll]
  constructor
  · rintro ⟨w, hw, mem⟩
    obtain ⟨i, place⟩ := List.mem_iff_getElem?.1 hw
    obtain ⟨inside, _⟩ := List.getElem?_eq_some_iff.1 place
    have hp : es[i]? = some es[i] := List.getElem?_eq_getElem (count ▸ inside)
    obtain ⟨t, ht, converted⟩ := getElem?_of_convertedEach h hp place
    have same := each _ (List.mem_of_getElem? hp) t (List.mem_of_getElem? ht) w converted
    exact ⟨i, es[i], t, hp, ht, same.1 mem⟩
  · rintro ⟨i, p, t, hp, ht, kept⟩
    obtain ⟨inside, _⟩ := List.getElem?_eq_some_iff.1 hp
    have hw : ws[i]? = some ws[i] := List.getElem?_eq_getElem (count ▸ inside)
    obtain ⟨t', ht', converted⟩ := getElem?_of_convertedEach h hp hw
    cases ht.symm.trans ht'
    have same := each p (List.mem_of_getElem? hp) t (List.mem_of_getElem? ht) _ converted
    exact ⟨ws[i], List.mem_of_getElem? hw, same.2 kept⟩

theorem mem_marksOfAll_convertedAttrs {es ws : List (String × Value)} {attrs : List (String × Ty)}
    (h : List.Forall₂ (ConvertedAttr es) attrs ws) (sorted : Dict.Sorted es)
    (ascending : Dict.Sorted attrs)
    (each : ∀ p ∈ es, ∀ a ∈ attrs, ∀ w, convert p.2 a.2 = .ok w →
      (x ∈ w.allMarks ↔ KeptMark x p.2 a.2)) :
    x ∈ marksOfAll (Dict.values ws) ↔
      ∃ p ∈ es, ∃ t, attrs.lookup p.1 = some t ∧ KeptMark x p.2 t := by
  rw [← marksOfEntries_eq_marksOfAll, mem_marksOfEntries]
  constructor
  · rintro ⟨w, hw, mem⟩
    obtain ⟨a, ha, _, v, found, converted⟩ := exists_of_mem_right h hw
    have hp := Dict.mem_of_lookup found
    exact ⟨(a.1, v), hp, a.2, Dict.lookup_of_mem ascending ha, (each _ hp a ha _ converted).1 mem⟩
  · rintro ⟨p, hp, t, ht, kept⟩
    have ha := Dict.mem_of_lookup ht
    obtain ⟨w, hw, _, v, found, converted⟩ := exists_of_mem_right h.flip ha
    obtain rfl := Option.some.inj ((Dict.lookup_of_mem sorted hp).symm.trans found)
    exact ⟨w, hw, (each p hp _ ha _ converted).2 kept⟩

theorem mem_allMarks_of_same (wf : v.WellFormed) (same : t = .dynamic ∨ v.ty = t) :
    x ∈ v.allMarks ↔ KeptMark x v t := by
  have keeps : Keeps v.ty t := by
    rcases same with rfl | rfl
    · exact .dynamic v.ty
    · exact .refl v.ty
  exact ⟨keptMark_of_keeps wf keeps, KeptMark.mem_allMarks⟩

/-- The marks of the result are those of the value outside of the attributes that were dropped. -/
theorem mem_allMarks_convert {w : Value} (wf : v.WellFormed) (canonical : t.Canonical)
    (h : convert v t = .ok w) : x ∈ w.allMarks ↔ KeptMark x v t := by
  -- A part is converted to a part of the filled target; the marks kept are compared there.
  induction v generalizing t w with
  | null s m =>
    rw [KeptMark.flat_iff rfl]
    cases converts_of_convert h <;> exact Iff.rfl
  | unknown s r m =>
    rw [KeptMark.flat_iff rfl]
    cases converts_of_convert h <;> exact Iff.rfl
  | scalar s m =>
    rw [KeptMark.flat_iff rfl]
    cases converts_of_convert h with
    | same _ => exact Iff.rfl
    | scalar _ hw =>
      obtain ⟨c, rfl, _⟩ := scalar_of_convertScalar hw
      rw [allMarks_withMarks, MarkSet.mem_union]
      exact or_iff_left MarkSet.not_mem_empty
  | sequence k es m ih =>
    have target {u : Ty} (hu : conversionType (Value.ty (.sequence k es m)) t = some u) :
        u.Canonical := Ty.canonical_conversionType wf.canonical canonical hu
    have alike {e : Ty} {ws : List Value} (elem : e.Canonical)
        (converted : List.Forall₂ (fun v w => convert v e = .ok w) es ws) :
        x ∈ marksOfAll ws ↔ ∃ p ∈ es, KeptMark x p e := by
      rw [mem_marksOfAll]
      exact exists_mem_iff_of_forall₂ converted fun p hp w hw => ih p hp (wf.elements p hp) elem hw
    cases converts_of_convert h with
    | same same => exact mem_allMarks_of_same wf same
    | @list _ _ ws _ _ e hu converted =>
      rw [← keptMark_filled wf (Matches.refl _) hu, KeptMark.sequence_iff (.inl rfl),
        allMarks_withMarks, allMarks_list, MarkSet.mem_union,
        alike (Ty.canonical_list.1 (target hu)) converted]
      exact Iff.rfl
    | @set _ _ ws _ _ e hu converted =>
      rw [← keptMark_filled wf (Matches.refl _) hu, KeptMark.sequence_iff (.inr rfl),
        allMarks_withMarks, allMarks_set, MarkSet.mem_union,
        alike (Ty.canonical_set.1 (target hu)) converted]
      exact Iff.rfl
    | @tuple _ _ ws _ _ ts hu converted =>
      have places := Ty.canonicalAll_iff.1 (target hu)
      rw [← keptMark_filled wf (Matches.refl _) hu, KeptMark.tuple_iff, allMarks_withMarks,
        allMarks_tuple, MarkSet.mem_union,
        mem_marksOfAll_convertedEach converted fun p hp t ht w hw =>
          ih p hp (wf.elements p hp) (places t ht) hw]
      exact Iff.rfl
  | mapping k es m ih =>
    have target {u : Ty} (hu : conversionType (Value.ty (.mapping k es m)) t = some u) :
        u.Canonical := Ty.canonical_conversionType wf.canonical canonical hu
    cases converts_of_convert h with
    | same same => exact mem_allMarks_of_same wf same
    | @map _ _ ws _ _ e hu converted =>
      have sorted : Dict.Sorted ws := wf.sorted.of_keys_eq (keys_of_convertedEntries converted)
      have elem : e.Canonical := Ty.canonical_map.1 (target hu)
      rw [← keptMark_filled wf (Matches.refl _) hu, KeptMark.map_iff, allMarks_withMarks,
        allMarks_map e sorted, MarkSet.mem_union, ← marksOfEntries_eq_marksOfAll, mem_marksOfEntries,
        exists_mem_iff_of_forall₂ converted fun p hp w hw => ih p hp (wf.entries p hp) elem hw.2]
      exact Iff.rfl
    | @object _ _ ws _ _ attrs hu converted _ =>
      obtain ⟨ascending, names⟩ := target hu
      have names := Ty.canonicalAttrs_iff.1 names
      have sorted : Dict.Sorted ws := ascending.of_keys_eq (keys_of_convertedAttrs converted)
      rw [← keptMark_filled wf (Matches.refl _) hu, KeptMark.object_iff, allMarks_withMarks,
        allMarks_object sorted, MarkSet.mem_union, mem_marksOfAll_convertedAttrs converted wf.sorted
          ascending fun p hp a ha w hw => ih p hp (wf.entries p hp) (names a ha) hw]
      exact Iff.rfl

/-- A conversion that keeps every part keeps every mark. -/
theorem allMarks_convert {w : Value} (wf : v.WellFormed) (canonical : t.Canonical)
    (keeps : Keeps v.ty t) (h : convert v t = .ok w) : w.allMarks = v.allMarks := by
  apply MarkSet.ext
  intro x
  rw [mem_allMarks_convert wf canonical h]
  exact ⟨KeptMark.mem_allMarks, keptMark_of_keeps wf keeps⟩

/-- Marks neither help nor hinder a conversion. Without them it fails in the same way or gives the
    same result without marks, and with them the result has those that stand outside of dropped
    attributes. -/
theorem convert_moves_marks (wf : v.WellFormed) (canonical : t.Canonical) :
    ((∃ w, convert v.erase t = .ok w) ↔ ∃ w, convert v t = .ok w) ∧
      (∀ e, convert v.erase t = .error e ↔ convert v t = .error e) ∧
      ∀ w, convert v t = .ok w →
        convert v.erase t = .ok w.erase ∧ ∀ x, x ∈ w.allMarks ↔ KeptMark x v t := by
  rw [convert_erase]
  refine ⟨?_, ?_, ?_⟩
  · cases convert v t <;> simp [Except.map]
  · cases convert v t <;> simp [Except.map]
  · intro w h
    rw [h]
    exact ⟨rfl, fun x => mem_allMarks_convert wf canonical h⟩

def markedRows : Value :=
  (list (.object [("a", .string), ("b", .string)])
    [object [("a", (string "x").withMark "kept"), ("b", (string "y").withMark "dropped")]]).withMark
    "top"

def firstFields : Value :=
  (set (.object [("a", .string)]) [object [("a", string "x")]]).withMarks
    (MarkSet.ofList ["kept", "top"])

/-- The mark of the field that is left out is lost, the others move to the set. -/
theorem markedRows_to_firstFields :
    markedRows.WellFormed ∧ (Ty.set (.object [("a", .string)])).Canonical ∧
      convert markedRows (.set (.object [("a", .string)])) = .ok firstFields ∧
      convert markedRows.erase (.set (.object [("a", .string)])) = .ok firstFields.erase ∧
      KeptMark "top" markedRows (.set (.object [("a", .string)])) ∧
      KeptMark "kept" markedRows (.set (.object [("a", .string)])) ∧
      ¬ KeptMark "dropped" markedRows (.set (.object [("a", .string)])) := by
  have names : Dict.Sorted [("a", Ty.string), ("b", .string)] :=
    List.pairwise_pair.2 (by decide)
  have row : (Ty.object [("a", .string), ("b", .string)]).Canonical :=
    ⟨names, Ty.canonicalAttrs_iff.2
      (List.forall_mem_cons.2 ⟨trivial, List.forall_mem_singleton.2 trivial⟩)⟩
  have wf : markedRows.WellFormed := by
    refine .list row (List.forall_mem_singleton.2 (Matches.refl _)) (List.forall_mem_singleton.2 ?_)
    exact .object names (List.forall_mem_cons.2 ⟨.scalar, List.forall_mem_singleton.2 .scalar⟩)
  have canonical : (Ty.set (.object [("a", .string)])).Canonical :=
    ⟨List.pairwise_singleton _ _, trivial, trivial⟩
  have converted : convert markedRows (.set (.object [("a", .string)])) = .ok firstFields := rfl
  obtain ⟨_, _, moved⟩ := convert_moves_marks wf canonical
  obtain ⟨erased, marks⟩ := moved firstFields converted
  exact ⟨wf, canonical, converted, erased, (marks "top").1 (by decide), (marks "kept").1 (by decide),
    fun lost => absurd ((marks "dropped").2 lost) (by decide)⟩

end MarkedValues.Value
