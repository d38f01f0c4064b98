import MarkedValues.Proofs.Ty.Targets

/-!
Types with nothing left open. Their common type is a target that conversion takes as it is:
whichever of the types is converted, the result has exactly the common type.
-/
namespace MarkedValues.Ty

open MarkedValues.Lists

theorem conversionTypes_of_targets {fs ts : List Ty}
    (h : List.Forall₂ (fun f t => conversionType f t = some t) fs ts) :
    conversionTypes fs ts = some ts := by
  induction h with
  | nil => rfl
  | cons here _ ih => simp [conversionTypes, here, ih]

theorem conversionAttrs_of_targets {source : String → Option Ty} {attrs : List (String × Ty)}
    (each : ∀ a ∈ attrs, ∃ f, source a.1 = some f ∧ conversionType f a.2 = some a.2) :
    conversionAttrs source attrs = some attrs := by
  induction attrs with
  | nil => rfl
  | cons a attrs ih =>
    obtain ⟨f, hf, here⟩ := each a List.mem_cons_self
    have rest := ih fun b hb => each b (List.mem_cons_of_mem a hb)
    simp [conversionAttrs, hf, here, rest]

section

variable {s e : Ty}

theorem elementTarget_of_targets {fs : List Ty} (bare : e = .dynamic → fs = [])
    (each : ∀ f ∈ fs, conversionType f e = some e) :
    elementTarget fs e (conversionType · e) = some e := by
  unfold elementTarget
  split
  · next whole =>
    have whole := isDynamic_iff.1 whole
    rw [bare whole, whole]
    rfl
  · have all : (fs.all fun f => (conversionType f e).isSome) = true :=
      List.all_eq_true.2 fun f hf => by rw [each f hf, Option.isSome_some]
    rw [if_pos all]

theorem conversionType_of_sequenceElems {t : Ty} (made : t.IsSequenceOf e)
    (sequence : s.isSequence = true) (bare : e = .dynamic → s.sequenceElems = [])
    (each : ∀ f ∈ s.sequenceElems, conversionType f e = some e) :
    conversionType s t = some t := by
  cases s <;> simp only [isSequence, isList, isSet, isTuple, Bool.or_self, Bool.false_eq_true]
    at sequence
  case tuple fs =>
    have target : elementTarget fs e (conversionType · e) = some e :=
      elementTarget_of_targets bare each
    rcases made with rfl | rfl <;> simp [conversionType, isDynamic, target]
  all_goals
    have part := each _ (List.mem_singleton_self _)
    rcases made with rfl | rfl <;> simp [conversionType, isDynamic, part]

theorem conversionType_of_mappingElems (mapping : s.isMapping = true)
    (bare : e = .dynamic → s.mappingElems = [])
    (each : ∀ f ∈ s.mappingElems, conversionType f e = some e) :
    conversionType s (.map e) = some (.map e) := by
  cases s <;> simp only [isMapping, isMap, isObject, Bool.or_self, Bool.false_eq_true] at mapping
  case map f =>
    have part := each f (List.mem_singleton_self f)
    simp [conversionType, isDynamic, part]
  case object fields =>
    have target : elementTarget (Dict.values fields) e (conversionType · e) = some e :=
      elementTarget_of_targets bare each
    simp [conversionType, isDynamic, target]

end

theorem lookup_attrColumn {ts : List Ty} {fields attrs : List (String × Ty)}
    (hs : .object fields ∈ ts) (keys : Dict.keys fields = Dict.keys attrs) {a : String × Ty}
    (ha : a ∈ attrs) : ∃ f ∈ attrColumn ts a.1, fields.lookup a.1 = some f := by
  have named : a.1 ∈ Dict.keys fields := keys ▸ List.mem_map_of_mem ha
  obtain ⟨f, hf⟩ := Dict.exists_lookup named
  exact ⟨f, List.mem_filterMap.2 ⟨_, hs, hf⟩, hf⟩

/-- Settled types convert to exactly the common type that was found for them. -/
theorem conversionType_of_unifies {ts : List Ty} {u : Ty} (h : Unifies ts u)
    (settled : ∀ t ∈ ts, t.Settled) : ∀ s ∈ ts, conversionType s u = some u := by
  induction h with
  | dynamic mem => exact absurd rfl (settled _ mem).ne_dynamic
  | same _ all =>
    intro s hs
    rw [all s hs, conversionType_self]
  | string primitive =>
    intro s hs
    simp [conversionType, primitive s hs]
  | @tuple ts us shape _ ih =>
    intro s hs
    obtain ⟨fs, rfl, len⟩ := shape s hs
    have places : List.Forall₂ (fun f t => conversionType f t = some t) fs us :=
      forall₂_of_getElem? len fun i f t hf ht =>
        ih i t ht (settled_column settled i) f (List.mem_filterMap.2 ⟨_, hs, hf⟩)
    simp [conversionType, isDynamic, len, conversionTypes_of_targets places]
  | @sequence ts u e made shape _ unified ih =>
    intro s hs
    have inside : ∀ f ∈ s.sequenceElems, f ∈ allSequenceElems ts :=
      fun f hf => List.mem_flatMap.2 ⟨s, hs, hf⟩
    have below := settled_allSequenceElems settled
    apply conversionType_of_sequenceElems made (shape s hs)
    · -- A type found for settled parts is not left open, so there are no parts.
      intro whole
      refine List.eq_nil_iff_forall_not_mem.2 fun f hf => ?_
      exact ne_dynamic_of_unifies below (unified (List.ne_nil_of_mem (inside f hf))) whole
    · intro f hf
      exact ih (List.ne_nil_of_mem (inside f hf)) below f (inside f hf)
  | @object ts attrs _ shape _ ih =>
    intro s hs
    obtain ⟨fields, rfl, keys⟩ := shape s hs
    have names : conversionAttrs (fields.lookup ·) attrs = some attrs := by
      refine conversionAttrs_of_targets fun a ha => ?_
      obtain ⟨f, mem, found⟩ := lookup_attrColumn hs keys ha
      exact ⟨f, found, ih a ha (settled_attrColumn settled a.1) f mem⟩
    simp [conversionType, isDynamic, names]
  | @map ts e shape _ unified ih =>
    intro s hs
    have inside : ∀ f ∈ s.mappingElems, f ∈ allMappingElems ts :=
      fun f hf => List.mem_flatMap.2 ⟨s, hs, hf⟩
    have below := settled_allMappingElems settled
    apply conversionType_of_mappingElems (shape s hs)
    · intro whole
      refine List.eq_nil_iff_forall_not_mem.2 fun f hf => ?_
      exact ne_dynamic_of_unifies below (unified (List.ne_nil_of_mem (inside f hf))) whole
    · intro f hf
      exact ih (List.ne_nil_of_mem (inside f hf)) below f (inside f hf)

end MarkedValues.Ty
