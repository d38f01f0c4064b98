import MarkedValues.Proofs.Ty.Unification

/-!
Common types as conversion targets. A type converts to the common type that was found
for it and others, unless on the way a tuple or an object whose parts have no common
type is to become a collection of an element type left open: there conversion looks for
one anew, from these parts alone.
-/
namespace MarkedValues.Ty

/-- Somewhere on the way from the first type to the second, parts without a common type are to
    become elements of an open element type. -/
inductive PartsClash : Ty → Ty → Prop
  | elements {t : Ty} {fs : List Ty} : t.IsSequenceOf .dynamic → unifyOrDynamic fs = none →
    PartsClash (.tuple fs) t
  | values {fields : List (String × Ty)} : unifyOrDynamic (Dict.values fields) = none →
    PartsClash (.object fields) (.map .dynamic)
  | element {s t e f : Ty} : t.IsSequenceOf e → f ∈ s.sequenceElems → PartsClash f e →
    PartsClash s t
  | value {s e f : Ty} : f ∈ s.mappingElems → PartsClash f e → PartsClash s (.map e)
  | place {fs ts : List Ty} {i : Nat} {f t : Ty} : fs[i]? = some f → ts[i]? = some t →
    PartsClash f t → PartsClash (.tuple fs) (.tuple ts)
  | attr {fields attrs : List (String × Ty)} {k : String} {f t : Ty} : fields.lookup k = some f →
    (k, t) ∈ attrs → PartsClash f t → PartsClash (.object fields) (.object attrs)

theorem conversionTypes_of_place {fs ts : List Ty} {i : Nat} {f t : Ty} (hf : fs[i]? = some f)
    (ht : ts[i]? = some t) (h : conversionType f t = none) : conversionTypes fs ts = none := by
  induction fs generalizing ts i with
  | nil => cases hf
  | cons g fs ih =>
    cases ts with
    | nil => cases ht
    | cons s ts =>
      cases i with
      | zero =>
        cases hf
        cases ht
        simp [conversionTypes, h]
      | succ i =>
        have rest : conversionTypes fs ts = none := ih hf ht
        simp [conversionTypes, rest]

theorem conversionAttrs_of_attr {source : String → Option Ty} {attrs : List (String × Ty)}
    {k : String} {f t : Ty} (hf : source k = some f) (ht : (k, t) ∈ attrs)
    (h : conversionType f t = none) : conversionAttrs source attrs = none := by
  induction attrs with
  | nil => cases ht
  | cons a attrs ih =>
    rcases List.mem_cons.1 ht with rfl | later
    · simp [conversionAttrs, hf, h]
    · have rest : conversionAttrs source attrs = none := ih later
      simp [conversionAttrs, rest]

theorem elementTarget_of_mem {fs : List Ty} {e f : Ty} (hf : f ∈ fs)
    (h : conversionType f e = none) : elementTarget fs e (conversionType · e) = none := by
  have settled : e.isDynamic = false := by
    cases e <;> first | rfl | cases h
  have fails : ¬ (fs.all fun g => (conversionType g e).isSome) = true := by
    rw [List.all_eq_true]
    intro all
    simpa [h] using all f hf
  simp only [elementTarget, settled, Bool.false_eq_true, if_false, if_neg fails]

theorem conversionType_of_partsClash {s t : Ty} (canonical : s.Canonical) (h : PartsClash s t) :
    conversionType s t = none := by
  induction h with
  | elements made none =>
    rcases made with rfl | rfl <;> simp [conversionType, isDynamic, elementTarget, none]
  | values none => simp [conversionType, isDynamic, elementTarget, none]
  | @element s t e f made hf _ ih =>
    have part : conversionType f e = none := ih (canonical_sequenceElems canonical hf)
    have differ : f ≠ e := by
      rintro rfl
      simp at part
    cases s <;> simp only [sequenceElems, List.not_mem_nil, List.mem_singleton] at hf
    · subst hf
      rcases made with rfl | rfl <;> simp [conversionType, isDynamic, differ, part]
    · subst hf
      rcases made with rfl | rfl <;> simp [conversionType, isDynamic, differ, part]
    · have target := elementTarget_of_mem hf part
      rcases made with rfl | rfl <;> simp [conversionType, isDynamic, target]
  | @value s e f hf _ ih =>
    have part : conversionType f e = none := ih (canonical_mappingElems canonical hf)
    have differ : f ≠ e := by
      rintro rfl
      simp at part
    cases s <;> simp only [mappingElems, List.not_mem_nil, List.mem_singleton] at hf
    · subst hf
      simp [conversionType, isDynamic, differ, part]
    · have target := elementTarget_of_mem hf part
      simp [conversionType, isDynamic, target]
  | @place fs ts i f t hf ht _ ih =>
    have part : conversionType f t = none :=
      ih (canonicalAll_iff.1 canonical f (List.mem_of_getElem? hf))
    have differ : fs ≠ ts := by
      rintro rfl
      cases hf.symm.trans ht
      simp at part
    simp [conversionType, isDynamic, differ, conversionTypes_of_place hf ht part]
  | @attr fields attrs k f t hf ht _ ih =>
    have part : conversionType f t = none := ih (canonical_objectAttrs canonical hf)
    have differ : fields ≠ attrs := by
      rintro rfl
      cases hf.symm.trans (Dict.lookup_of_mem canonical.1 ht)
      simp at part
    have none : conversionAttrs (fields.lookup ·) attrs = none := conversionAttrs_of_attr hf ht part
    simp [conversionType, isDynamic, differ, none]

theorem conversionTypes_isSome {fs ts : List Ty}
    (each : ∀ (i : Nat) (f t : Ty), fs[i]? = some f → ts[i]? = some t →
      (conversionType f t).isSome = true) : (conversionTypes fs ts).isSome = true := by
  induction fs generalizing ts with
  | nil => simp [conversionTypes]
  | cons f fs ih =>
    cases ts with
    | nil => simp [conversionTypes]
    | cons t ts =>
      obtain ⟨u, hu⟩ := Option.isSome_iff_exists.1 (each 0 f t rfl rfl)
      obtain ⟨us, hus⟩ := Option.isSome_iff_exists.1 (ih fun i => each (i + 1))
      simp [conversionTypes, hu, hus]

theorem conversionAttrs_isSome {source : String → Option Ty} {attrs : List (String × Ty)}
    (each : ∀ a ∈ attrs, ∃ f, source a.1 = some f ∧ (conversionType f a.2).isSome = true) :
    (conversionAttrs source attrs).isSome = true := by
  induction attrs with
  | nil => rfl
  | cons a attrs ih =>
    obtain ⟨f, hf, hu⟩ := each a (by simp)
    obtain ⟨u, hu⟩ := Option.isSome_iff_exists.1 hu
    obtain ⟨us, hus⟩ := Option.isSome_iff_exists.1 (ih fun b hb => each b (by simp [hb]))
    simp [conversionAttrs, hf, hu, hus]

theorem elementTarget_isSome {fs : List Ty} {e : Ty}
    (common : e = .dynamic → unifyOrDynamic fs ≠ none)
    (each : ∀ f ∈ fs, (conversionType f e).isSome = true) :
    (elementTarget fs e (conversionType · e)).isSome = true := by
  unfold elementTarget
  split
  · next whole => exact Option.isSome_iff_ne_none.2 (common (isDynamic_iff.1 whole))
  · rw [if_pos (List.all_eq_true.2 each)]
    rfl

theorem conversionType_sequence_isSome {s t e : Ty} (made : t.IsSequenceOf e)
    (sequence : s.isSequence = true) (tuple : ∀ fs, s = .tuple fs → e = .dynamic →
      unifyOrDynamic fs ≠ none)
    (each : ∀ f ∈ s.sequenceElems, (conversionType f e).isSome = true) :
    (conversionType s t).isSome = true := by
  cases s <;> simp only [isSequence, isList, isSet, isTuple, Bool.or_self, Bool.false_eq_true]
    at sequence
  · have part := each _ (List.mem_singleton_self _)
    rcases made with rfl | rfl <;> simp only [conversionType] <;> split <;> simp [part]
  · have part := each _ (List.mem_singleton_self _)
    rcases made with rfl | rfl <;> simp only [conversionType] <;> split <;> simp [part]
  · have target := elementTarget_isSome (tuple _ rfl) each
    rcases made with rfl | rfl <;> simp only [conversionType] <;> split <;> simp [target]

theorem conversionType_map_isSome {s e : Ty} (mapping : s.isMapping = true)
    (object : ∀ fields, s = .object fields → e = .dynamic →
      unifyOrDynamic (Dict.values fields) ≠ none)
    (each : ∀ f ∈ s.mappingElems, (conversionType f e).isSome = true) :
    (conversionType s (.map e)).isSome = true := by
  cases s <;> simp only [isMapping, isMap, isObject, Bool.or_self, Bool.false_eq_true] at mapping
  · have part := each _ (List.mem_singleton_self _)
    simp only [conversionType]
    split <;> simp [part]
  · have target := elementTarget_isSome (object _ rfl) each
    simp only [conversionType]
    split <;> simp [target]

theorem conversionType_isSome_of_unifies {ts : List Ty} {u : Ty} (h : Unifies ts u) :
    ∀ s ∈ ts, ¬ PartsClash s u → (conversionType s u).isSome = true := by
  -- On how the common type came about: a clash of parts would be one of the whole.
  induction h with
  | dynamic _ => exact fun s _ _ => rfl
  | same _ all =>
    intro s hs _
    rw [all s hs, conversionType_self]
    rfl
  | string primitive =>
    intro s hs _
    simp [conversionType, primitive s hs]
  | @tuple ts us shape _ ih =>
    intro s hs apart
    obtain ⟨fs, rfl, len⟩ := shape s hs
    have places : (conversionTypes fs us).isSome = true := conversionTypes_isSome
      fun i f u hf hu => ih i u hu f (List.mem_filterMap.2 ⟨_, hs, hf⟩)
        fun clash => apart (.place hf hu clash)
    simp only [conversionType]
    split <;> simp [len, places]
  | @sequence ts u e made shape _ _ ih =>
    intro s hs apart
    have inside : ∀ f ∈ s.sequenceElems, f ∈ allSequenceElems ts :=
      fun f hf => List.mem_flatMap.2 ⟨s, hs, hf⟩
    refine conversionType_sequence_isSome made (shape s hs) ?_ fun f hf => ?_
    · rintro fs rfl rfl none
      exact apart (.elements made none)
    · exact ih (List.ne_nil_of_mem (inside f hf)) f (inside f hf)
        fun clash => apart (.element made hf clash)
  | @object ts attrs _ shape _ ih =>
    intro s hs apart
    obtain ⟨fields, rfl, keys⟩ := shape s hs
    have found : (conversionAttrs (fields.lookup ·) attrs).isSome = true := by
      refine conversionAttrs_isSome fun a ha => ?_
      have named : a.1 ∈ Dict.keys fields := keys ▸ List.mem_map_of_mem ha
      obtain ⟨f, hf⟩ := Dict.exists_lookup named
      exact ⟨f, hf, ih a ha f (List.mem_filterMap.2 ⟨_, hs, hf⟩)
        fun clash => apart (.attr hf ha clash)⟩
    simp only [conversionType]
    split <;> simp [found]
  | @map ts e shape _ _ ih =>
    intro s hs apart
    have inside : ∀ f ∈ s.mappingElems, f ∈ allMappingElems ts :=
      fun f hf => List.mem_flatMap.2 ⟨s, hs, hf⟩
    refine conversionType_map_isSome (shape s hs) ?_ fun f hf => ?_
    · rintro fields rfl rfl none
      exact apart (.values none)
    · exact ih (List.ne_nil_of_mem (inside f hf)) f (inside f hf)
        fun clash => apart (.value hf clash)

theorem not_partsClash_self {t : Ty} (canonical : t.Canonical) : ¬ PartsClash t t := fun clash => by
  simpa using conversionType_of_partsClash canonical clash

/-- No part of the type is left open. -/
structure Settled (t : Ty) : Prop where
  canonical : t.Canonical
  closed : t.hasDynamic = false

theorem Settled.ne_dynamic {t : Ty} (h : t.Settled) : t ≠ .dynamic := by
  rintro rfl
  cases h.closed

theorem Settled.sequenceElems {t e : Ty} (h : t.Settled) (he : e ∈ t.sequenceElems) :
    e.Settled := by
  refine ⟨canonical_sequenceElems h.canonical he, ?_⟩
  have closed := h.closed
  cases t <;> simp only [Ty.sequenceElems, List.not_mem_nil, List.mem_singleton] at he
  · exact he ▸ closed
  · exact he ▸ closed
  · simp only [hasDynamic, anyDynamic_eq_any, List.any_eq_false] at closed
    simpa using closed e he

theorem Settled.mappingElems {t e : Ty} (h : t.Settled) (he : e ∈ t.mappingElems) : e.Settled := by
  refine ⟨canonical_mappingElems h.canonical he, ?_⟩
  have closed := h.closed
  cases t <;> simp only [Ty.mappingElems, List.not_mem_nil, List.mem_singleton] at he
  · exact he ▸ closed
  · simp only [hasDynamic, anyAttrDynamic_eq_any, List.any_eq_false] at closed
    obtain ⟨a, ha, rfl⟩ := List.mem_map.1 he
    simpa using closed a ha

section

variable {ts : List Ty} (settled : ∀ t ∈ ts, t.Settled)

include settled

theorem settled_allSequenceElems : ∀ e ∈ allSequenceElems ts, e.Settled := by
  intro e he
  obtain ⟨t, ht, mem⟩ := List.mem_flatMap.1 he
  exact (settled t ht).sequenceElems mem

theorem settled_allMappingElems : ∀ e ∈ allMappingElems ts, e.Settled := by
  intro e he
  obtain ⟨t, ht, mem⟩ := List.mem_flatMap.1 he
  exact (settled t ht).mappingElems mem

theorem settled_column (i : Nat) : ∀ e ∈ column ts i, e.Settled := by
  intro e he
  obtain ⟨t, ht, found⟩ := List.mem_filterMap.1 he
  refine (settled t ht).sequenceElems ?_
  cases t <;> simp only [tupleElems, List.getElem?_nil, reduceCtorEq] at found
  exact List.mem_of_getElem? found

theorem settled_attrColumn (k : String) : ∀ e ∈ attrColumn ts k, e.Settled := by
  intro e he
  obtain ⟨t, ht, found⟩ := List.mem_filterMap.1 he
  refine (settled t ht).mappingElems ?_
  cases t <;> simp only [objectAttrs, List.lookup_nil, reduceCtorEq] at found
  exact List.mem_map_of_mem (Dict.mem_of_lookup found)

theorem ne_dynamic_of_unifies {u : Ty} (h : Unifies ts u) : u ≠ .dynamic := by
  rintro rfl
  cases h with
  | dynamic mem => exact (settled _ mem).ne_dynamic rfl
  | same mem _ => exact (settled _ mem).ne_dynamic rfl
  | sequence made _ _ _ => rcases made with made | made <;> cases made

end

theorem not_isSequenceOf {t e : Ty} (list : t.isList = false) (set : t.isSet = false) :
    ¬ t.IsSequenceOf e := by
  rintro (rfl | rfl)
  · cases list
  · cases set

/-- Where settled types are unified, no collection of an open element type is asked for. -/
theorem not_partsClash_of_settled {ts : List Ty} {u : Ty} (h : Unifies ts u)
    (settled : ∀ t ∈ ts, t.Settled) : ∀ s ∈ ts, ¬ PartsClash s u := by
  induction h with
  | dynamic mem => exact absurd rfl (settled _ mem).ne_dynamic
  | same _ all => exact fun s hs => all s hs ▸ not_partsClash_self (settled s hs).canonical
  | string _ =>
    intro s _ clash
    cases clash with
    | elements made _ => exact not_isSequenceOf rfl rfl made
    | element made _ _ => exact not_isSequenceOf rfl rfl made
  | tuple _ _ ih =>
    intro s hs clash
    cases clash with
    | elements made _ => exact not_isSequenceOf rfl rfl made
    | element made _ _ => exact not_isSequenceOf rfl rfl made
    | place hf hu clash =>
      exact ih _ _ hu (settled_column settled _) _ (List.mem_filterMap.2 ⟨_, hs, hf⟩) clash
  | @sequence ts u e made _ _ unified ih =>
    intro s hs clash
    have inside : ∀ f ∈ s.sequenceElems, f ∈ allSequenceElems ts :=
      fun f hf => List.mem_flatMap.2 ⟨s, hs, hf⟩
    have below := settled_allSequenceElems settled
    cases clash with
    | @elements _ fs made' none =>
      -- An empty tuple does not clash, and a type found for settled parts is not left open.
      cases fs with
      | nil => cases none
      | cons f fs =>
        have closed := ne_dynamic_of_unifies below
          (unified (List.ne_nil_of_mem (inside f List.mem_cons_self)))
        rcases made with rfl | rfl <;> rcases made' with heq | heq <;> cases heq
        all_goals exact closed rfl
    | @element _ _ e' f made' hf clash =>
      have same : e' = e := by
        rcases made with rfl | rfl <;> rcases made' with heq | heq <;> cases heq <;> rfl
      exact ih (List.ne_nil_of_mem (inside f hf)) below f (inside f hf) (same ▸ clash)
    | _ => rcases made with heq | heq <;> cases heq
  | @object ts attrs _ _ _ ih =>
    intro s hs clash
    cases clash with
    | elements made _ => exact not_isSequenceOf rfl rfl made
    | element made _ _ => exact not_isSequenceOf rfl rfl made
    | attr hf mem clash =>
      exact ih _ mem (settled_attrColumn settled _) _ (List.mem_filterMap.2 ⟨_, hs, hf⟩) clash
  | @map ts e _ _ unified ih =>
    intro s hs clash
    have inside : ∀ f ∈ s.mappingElems, f ∈ allMappingElems ts :=
      fun f hf => List.mem_flatMap.2 ⟨s, hs, hf⟩
    have below := settled_allMappingElems settled
    cases clash with
    | elements made _ => exact not_isSequenceOf rfl rfl made
    | element made _ _ => exact not_isSequenceOf rfl rfl made
    | @values fields none =>
      cases fields with
      | nil => cases none
      | cons a fields =>
        have nonempty := List.ne_nil_of_mem (inside a.2 List.mem_cons_self)
        exact ne_dynamic_of_unifies below (unified nonempty) rfl
    | @value _ _ f hf clash =>
      exact ih (List.ne_nil_of_mem (inside f hf)) below f (inside f hf) clash

/-- Each of the types that have a common type converts to it exactly if no parts clash on the way,
    and none do if no part of the types is left open. -/
theorem conversionType_common_isSome_iff {ts : List Ty} {u : Ty}
    (canonical : ∀ t ∈ ts, t.Canonical) (h : unify ts = some u) :
    (∀ t ∈ ts, (conversionType t u).isSome = true ↔ ¬ PartsClash t u) ∧
      ((∀ t ∈ ts, t.hasDynamic = false) → ∀ t ∈ ts, (conversionType t u).isSome = true) := by
  have unifies := unifies_of_unify h
  have convert := conversionType_isSome_of_unifies unifies
  refine ⟨fun t ht => ⟨fun converts clash => ?_, convert t ht⟩, fun closed t ht => ?_⟩
  · rw [conversionType_of_partsClash (canonical t ht) clash] at converts
    cases converts
  · have settled : ∀ s ∈ ts, s.Settled := fun s hs => ⟨canonical s hs, closed s hs⟩
    exact convert t ht (not_partsClash_of_settled unifies settled t ht)

def openListAndMixedTuple : List Ty := [.list .dynamic, .tuple [.string, .list .string]]

theorem mixedTuple_clashes :
    (∀ t ∈ openListAndMixedTuple, t.Canonical) ∧
      unify openListAndMixedTuple = some (.list .dynamic) ∧
      (conversionType (.list .dynamic) (.list .dynamic)).isSome = true ∧
      conversionType (.tuple [.string, .list .string]) (.list .dynamic) = none := by
  have canonical : ∀ t ∈ openListAndMixedTuple, t.Canonical := by
    simp [openListAndMixedTuple, Canonical]
  have common : unify openListAndMixedTuple = some (.list .dynamic) := by decide +kernel
  have apart : unifyOrDynamic [.string, .list .string] = none := by decide +kernel
  have clash : PartsClash (.tuple [.string, .list .string]) (.list .dynamic) :=
    .elements (.inl rfl) apart
  obtain ⟨converts, _⟩ := conversionType_common_isSome_iff canonical common
  refine ⟨canonical, common, ?_, ?_⟩
  · exact (converts _ (by simp [openListAndMixedTuple])).2 (not_partsClash_self trivial)
  · rw [← Option.not_isSome_iff_eq_none, converts _ (by simp [openListAndMixedTuple])]
    exact not_not_intro clash

end MarkedValues.Ty
