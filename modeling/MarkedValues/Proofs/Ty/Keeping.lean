import MarkedValues.Proofs.Ty.Unification

/-!
Which conversions keep every part of a value. Only the conversion of an object to one of fewer names
leaves something out; unifying never asks for that.
-/
namespace MarkedValues.Ty

open MarkedValues.Lists

/-- No name is dropped anywhere on the way from the first type to the second. -/
inductive Keeps : Ty → Ty → Prop
  | refl (t : Ty) : Keeps t t
  | dynamic (s : Ty) : Keeps s .dynamic
  | primitive (s : Ty) {t : Ty} : t.isPrimitive = true → Keeps s t
  | sequence {s t e : Ty} : t.IsSequenceOf e → s.isSequence = true →
    (∀ f ∈ s.sequenceElems, Keeps f e) → Keeps s t
  | map {s e : Ty} : s.isMapping = true → (∀ f ∈ s.mappingElems, Keeps f e) → Keeps s (.map e)
  | tuple {fs ts : List Ty} : fs.length = ts.length →
    (∀ (i : Nat) (f t : Ty), fs[i]? = some f → ts[i]? = some t → Keeps f t) →
    Keeps (.tuple fs) (.tuple ts)
  | object {fields attrs : List (String × Ty)} :
    (∀ k ∈ Dict.keys fields, k ∈ Dict.keys attrs) →
    (∀ k f t, fields.lookup k = some f → attrs.lookup k = some t → Keeps f t) →
    Keeps (.object fields) (.object attrs)

theorem keeps_of_unifies {ts : List Ty} {u : Ty} (h : Unifies ts u) : ∀ s ∈ ts, Keeps s u := by
  induction h with
  | dynamic _ => exact fun s _ => .dynamic s
  | same _ all => exact fun s hs => all s hs ▸ .refl s
  | string _ => exact fun s _ => .primitive s rfl
  | tuple shape _ ih =>
    intro s hs
    obtain ⟨es, rfl, len⟩ := shape s hs
    exact .tuple len fun i f t hf ht => ih i t ht f (List.mem_filterMap.2 ⟨_, hs, hf⟩)
  | sequence made shape _ _ ih =>
    intro s hs
    have inside : ∀ f ∈ s.sequenceElems, f ∈ allSequenceElems _ :=
      fun f hf => List.mem_flatMap.2 ⟨s, hs, hf⟩
    refine .sequence made (shape s hs) fun f hf => ?_
    exact ih (List.ne_nil_of_mem (inside f hf)) f (inside f hf)
  | object _ shape _ ih =>
    intro s hs
    obtain ⟨fields, rfl, keys⟩ := shape s hs
    refine .object (fun k hk => keys ▸ hk) fun k f t hf ht => ?_
    exact ih (k, t) (Dict.mem_of_lookup ht) f (List.mem_filterMap.2 ⟨_, hs, hf⟩)
  | map shape _ _ ih =>
    intro s hs
    have inside : ∀ f ∈ s.mappingElems, f ∈ allMappingElems _ :=
      fun f hf => List.mem_flatMap.2 ⟨s, hs, hf⟩
    refine .map (shape s hs) fun f hf => ?_
    exact ih (List.ne_nil_of_mem (inside f hf)) f (inside f hf)

/-- Every part of a value outlasts its conversion to a common type. -/
theorem keeps_unify {ts : List Ty} {u : Ty} (h : unify ts = some u) : ∀ s ∈ ts, Keeps s u :=
  keeps_of_unifies (unifies_of_unify h)

theorem keeps_elementTarget {sources : List Ty} {e u : Ty} (keeps : ∀ f ∈ sources, Keeps f e)
    (each : ∀ f ∈ sources, ∀ u, conversionType f e = some u → Keeps f u)
    (h : ElementTarget sources e u) : ∀ f ∈ sources, Keeps f u := by
  cases h with
  | given => exact keeps
  | @single f _ hs hu =>
    subst hs
    intro g hg
    cases List.mem_singleton.1 hg
    exact each f hg u hu
  | open_ _ _ => exact fun f _ => .dynamic f
  | common _ hu => exact keeps_unify hu

theorem Keeps.conversionType {s t u : Ty} (h : Keeps s t) (hu : conversionType s t = some u) :
    Keeps s u := by
  induction h generalizing u with
  | refl t =>
    rw [conversionType_self] at hu
    cases hu
    exact .refl t
  | dynamic s =>
    cases hu
    exact .refl s
  | @primitive s t hp =>
    have shape := conversionType_matches hu
    cases t <;> simp only [isPrimitive, Bool.false_eq_true] at hp
    all_goals exact .primitive s (by rw [shape]; rfl)
  | sequence made hs keeps ih =>
    obtain ⟨v, made, hv⟩ := conversionType_sequence made hu
    have elems := keeps_elementTarget keeps (fun f hf u hu => ih f hf hu) hv
    rcases made with ⟨_, rfl⟩ | ⟨_, rfl⟩
    · exact .sequence (.inl rfl) hs elems
    · exact .sequence (.inr rfl) hs elems
  | map hs keeps ih =>
    obtain ⟨v, rfl, hv⟩ := conversionType_map hu
    exact .map hs (keeps_elementTarget keeps (fun f hf u hu => ih f hf hu) hv)
  | @tuple fs ts len keeps ih =>
    rcases conversionType_tuple hu with rfl | ⟨gs, us, rfl, _, _, sources, hus⟩
    · exact .tuple len keeps
    · cases sources rfl
      have shape := conversionTypes_matches len (fun _ _ _ _ => conversionType_matches) hus
      refine .tuple (len.trans shape.length_eq.symm) fun i f u hf hu => ?_
      obtain ⟨g, t, hg, ht, hconv⟩ := conversionTypes_getElem? len hus hu
      cases hf.symm.trans hg
      exact ih i f t hf ht hconv
  | @object fields attrs names keeps ih =>
    rcases conversionType_object hu with rfl | ⟨source, us, rfl, _, sources, hus⟩
    · exact .object names keeps
    · cases sources rfl
      refine .object (fun k hk => keys_of_conversionAttrs hus ▸ names k hk) fun k f u hf hu => ?_
      obtain ⟨g, t, hg, ht, hconv⟩ := conversionAttrs_lookup hus hu
      cases hf.symm.trans hg
      exact ih k f t hf ht hconv

theorem Keeps.sequenceElems {s t e : Ty} (made : t.IsSequenceOf e) (h : Keeps s t) :
    ∀ f ∈ s.sequenceElems, Keeps f e := by
  intro f hf
  cases h with
  | refl =>
    rcases made with rfl | rfl
    all_goals
      cases List.mem_singleton.1 hf
      exact .refl e
  | sequence made' _ elems =>
    rcases made with rfl | rfl <;> rcases made' with heq | heq <;> cases heq
    all_goals exact elems f hf
  | dynamic => rcases made with heq | heq <;> cases heq
  | primitive _ hp => rcases made with rfl | rfl <;> cases hp
  | map _ _ => rcases made with heq | heq <;> cases heq
  | tuple _ _ => rcases made with heq | heq <;> cases heq
  | object _ _ => rcases made with heq | heq <;> cases heq

theorem Keeps.mappingElems {s e : Ty} (h : Keeps s (.map e)) : ∀ f ∈ s.mappingElems, Keeps f e := by
  intro f hf
  cases h with
  | refl =>
    cases List.mem_singleton.1 hf
    exact .refl e
  | primitive _ hp => cases hp
  | sequence made _ _ => rcases made with heq | heq <;> cases heq
  | map _ elems => exact elems f hf

theorem Keeps.tupleElems {s : Ty} {ts : List Ty} (h : Keeps s (.tuple ts)) :
    ∃ fs, s = .tuple fs ∧ fs.length = ts.length ∧
      ∀ (i : Nat) (f t : Ty), fs[i]? = some f → ts[i]? = some t → Keeps f t := by
  cases h with
  | refl =>
    refine ⟨ts, rfl, rfl, fun i f t hf ht => ?_⟩
    cases hf.symm.trans ht
    exact .refl f
  | primitive _ hp => cases hp
  | sequence made _ _ => rcases made with heq | heq <;> cases heq
  | tuple len keeps => exact ⟨_, rfl, len, keeps⟩

theorem Keeps.objectAttrs {s : Ty} {attrs : List (String × Ty)} (h : Keeps s (.object attrs)) :
    ∃ fields, s = .object fields ∧ (∀ k ∈ Dict.keys fields, k ∈ Dict.keys attrs) ∧
      ∀ k f t, fields.lookup k = some f → attrs.lookup k = some t → Keeps f t := by
  cases h with
  | refl =>
    refine ⟨attrs, rfl, fun k hk => hk, fun k f t hf ht => ?_⟩
    cases hf.symm.trans ht
    exact .refl f
  | primitive _ hp => cases hp
  | sequence made _ _ => rcases made with heq | heq <;> cases heq
  | object names keeps => exact ⟨_, rfl, names, keeps⟩

theorem Keeps.isSequence {s t : Ty} (h : Keeps s t) (sequence : t.isSequence = true) :
    s.isSequence = true := by
  cases h with
  | refl => exact sequence
  | dynamic => cases sequence
  | primitive _ hp =>
    cases t with
    | string | number | bool => cases sequence
    | _ => cases hp
  | sequence _ hs _ => exact hs
  | map _ _ => cases sequence
  | tuple _ _ => rfl
  | object _ _ => cases sequence

theorem Keeps.isMapping {s t : Ty} (h : Keeps s t) (mapping : t.isMapping = true) :
    s.isMapping = true := by
  cases h with
  | refl => exact mapping
  | dynamic => cases mapping
  | primitive _ hp =>
    cases t with
    | string | number | bool => cases mapping
    | _ => cases hp
  | sequence made _ _ => rcases made with rfl | rfl <;> cases mapping
  | map hs _ => exact hs
  | tuple _ _ => cases mapping
  | object _ _ => rfl

theorem not_isMapping_of_isSequence {s : Ty} (sequence : s.isSequence = true) :
    ¬ s.isMapping = true := by
  cases s <;> first | exact Bool.false_ne_true | cases sequence

theorem matches_lookup {us attrs : List (String × Ty)} (h : List.Forall₂ MatchesAttr us attrs)
    {k : String} {f : Ty} (hf : us.lookup k = some f) :
    ∃ t, attrs.lookup k = some t ∧ Matches f t := by
  induction h with
  | nil => cases hf
  | @cons u a us attrs hu _ ih =>
    obtain ⟨l, g⟩ := u
    obtain ⟨l', t⟩ := a
    obtain ⟨rfl, hg⟩ := hu
    by_cases hk : k = l
    · subst hk
      rw [Dict.lookup_cons_self] at hf ⊢
      cases hf
      exact ⟨t, rfl, hg⟩
    · rw [Dict.lookup_cons_of_ne hk] at hf ⊢
      exact ih hf

theorem matches_sequenceElems {s' s f : Ty} (filled : Matches s' s) (hs : s.isSequence = true)
    (hf : f ∈ s'.sequenceElems) : ∃ g ∈ s.sequenceElems, Matches f g := by
  cases s <;> simp only [isSequence, isList, isSet, isTuple, Bool.or_self, Bool.false_eq_true] at hs
  · obtain ⟨g, rfl, hg⟩ := filled
    cases List.mem_singleton.1 hf
    exact ⟨_, List.mem_singleton.2 rfl, hg⟩
  · obtain ⟨g, rfl, hg⟩ := filled
    cases List.mem_singleton.1 hf
    exact ⟨_, List.mem_singleton.2 rfl, hg⟩
  · obtain ⟨fs, rfl, hfs⟩ := filled
    obtain ⟨i, hi⟩ := List.mem_iff_getElem?.1 hf
    obtain ⟨t, ht, hm⟩ := forall₂_getElem? (matchesAll_iff.1 hfs) hi
    exact ⟨t, List.mem_of_getElem? ht, hm⟩

theorem matches_isSequence {s' s : Ty} (filled : Matches s' s) (hs : s.isSequence = true) :
    s'.isSequence = true := by
  cases s <;> simp only [isSequence, isList, isSet, isTuple, Bool.or_self, Bool.false_eq_true] at hs
  all_goals
    obtain ⟨g, rfl, _⟩ := filled
    rfl

theorem Matches.isSequence {s' s : Ty} (filled : Matches s' s) (settled : s ≠ .dynamic)
    (sequence : s'.isSequence = true) : s.isSequence = true := by
  cases s with
  | dynamic => exact absurd rfl settled
  | string | number | bool =>
    cases filled
    cases sequence
  | list _ | set _ | tuple _ => rfl
  | map _ | object _ =>
    obtain ⟨_, rfl, _⟩ := filled
    cases sequence

theorem Matches.isMapping {s' s : Ty} (filled : Matches s' s) (settled : s ≠ .dynamic)
    (mapping : s'.isMapping = true) : s.isMapping = true := by
  cases s with
  | dynamic => exact absurd rfl settled
  | string | number | bool =>
    cases filled
    cases mapping
  | map _ | object _ => rfl
  | list _ | set _ | tuple _ =>
    obtain ⟨_, rfl, _⟩ := filled
    cases mapping

theorem matches_mappingElems {s' s f : Ty} (filled : Matches s' s) (hs : s.isMapping = true)
    (hf : f ∈ s'.mappingElems) : ∃ g ∈ s.mappingElems, Matches f g := by
  cases s <;> simp only [isMapping, isMap, isObject, Bool.or_self, Bool.false_eq_true] at hs
  · obtain ⟨g, rfl, hg⟩ := filled
    cases List.mem_singleton.1 hf
    exact ⟨_, List.mem_singleton.2 rfl, hg⟩
  · obtain ⟨fields, rfl, hfields⟩ := filled
    obtain ⟨a, ha, rfl⟩ := List.mem_map.1 hf
    obtain ⟨i, hi⟩ := List.mem_iff_getElem?.1 ha
    obtain ⟨b, hb, hm⟩ := forall₂_getElem? (matchesAttrs_iff.1 hfields) hi
    exact ⟨b.2, List.mem_map_of_mem (List.mem_of_getElem? hb), hm.2⟩

theorem matches_isMapping {s' s : Ty} (filled : Matches s' s) (hs : s.isMapping = true) :
    s'.isMapping = true := by
  cases s <;> simp only [isMapping, isMap, isObject, Bool.or_self, Bool.false_eq_true] at hs
  all_goals
    obtain ⟨g, rfl, _⟩ := filled
    rfl

theorem keeps_of_matches {s t : Ty} (filled : Matches s t) : Keeps s t := by
  induction t generalizing s with
  | dynamic => exact .dynamic s
  | string | number | bool => exact .primitive s rfl
  | list e ih =>
    obtain ⟨f, rfl, hf⟩ := filled
    exact .sequence (.inl rfl) rfl (by simpa [sequenceElems] using ih hf)
  | set e ih =>
    obtain ⟨f, rfl, hf⟩ := filled
    exact .sequence (.inr rfl) rfl (by simpa [sequenceElems] using ih hf)
  | map e ih =>
    obtain ⟨f, rfl, hf⟩ := filled
    exact .map rfl (by simpa [mappingElems] using ih hf)
  | tuple ts ih =>
    obtain ⟨fs, rfl, hfs⟩ := filled
    rw [matchesAll_iff] at hfs
    refine .tuple hfs.length_eq fun i f t hf ht => ?_
    obtain ⟨t', ht', hm⟩ := forall₂_getElem? hfs hf
    cases ht.symm.trans ht'
    exact ih t (List.mem_of_getElem? ht) hm
  | object attrs ih =>
    obtain ⟨fields, rfl, hfields⟩ := filled
    rw [matchesAttrs_iff] at hfields
    refine .object (fun k hk => keys_eq_of_matchesAttrs hfields ▸ hk) fun k f t hf ht => ?_
    obtain ⟨t', ht', hm⟩ := matches_lookup hfields hf
    cases ht.symm.trans ht'
    exact ih _ (Dict.mem_of_lookup ht) hm

/-- A type that fills a kept one is kept. -/
theorem Keeps.of_matches {s s' t : Ty} (h : Keeps s t) (filled : Matches s' s) : Keeps s' t := by
  induction h generalizing s' with
  | refl t => exact keeps_of_matches filled
  | dynamic s => exact .dynamic s'
  | primitive s hp => exact .primitive s' hp
  | sequence made hs _ ih =>
    refine .sequence made (matches_isSequence filled hs) fun f hf => ?_
    obtain ⟨g, hg, hm⟩ := matches_sequenceElems filled hs hf
    exact ih g hg hm
  | map hs _ ih =>
    refine .map (matches_isMapping filled hs) fun f hf => ?_
    obtain ⟨g, hg, hm⟩ := matches_mappingElems filled hs hf
    exact ih g hg hm
  | tuple len _ ih =>
    obtain ⟨gs, rfl, hgs⟩ := filled
    rw [matchesAll_iff] at hgs
    refine .tuple (hgs.length_eq.trans len) fun i g t hg ht => ?_
    obtain ⟨f, hf, hm⟩ := forall₂_getElem? hgs hg
    exact ih i f t hf ht hm
  | object names _ ih =>
    obtain ⟨us, rfl, hus⟩ := filled
    rw [matchesAttrs_iff] at hus
    refine .object (fun k hk => names k (keys_eq_of_matchesAttrs hus ▸ hk)) fun k g t hg ht => ?_
    obtain ⟨f, hf, hm⟩ := matches_lookup hus hg
    exact ih k f t hf ht hm

def isNameless : Ty → Bool
  | .string | .number | .bool | .dynamic => true
  | .list e | .set e | .map e => e.isPrimitive || e.isDynamic
  | .tuple _ | .object _ => false

theorem keeps_part {e : Ty} (nameless : (e.isPrimitive || e.isDynamic) = true) (f : Ty) :
    Keeps f e := by
  rcases Bool.or_eq_true_iff.1 nameless with primitive | open_
  · exact .primitive f primitive
  · rw [isDynamic_iff.1 open_]
    exact .dynamic f

/-- Whatever converts to such a target is kept. -/
theorem keeps_of_isNameless {s t u : Ty} (nameless : t.isNameless = true) (settled : s ≠ .dynamic)
    (hu : conversionType s t = some u) : Keeps s t := by
  cases t with
  | string => exact .primitive s rfl
  | number => exact .primitive s rfl
  | bool => exact .primitive s rfl
  | dynamic => exact .dynamic s
  | list e =>
    have part := keeps_part nameless
    cases s <;> simp [conversionType, isDynamic] at hu settled
    all_goals exact .sequence (.inl rfl) rfl fun f _ => part f
  | set e =>
    have part := keeps_part nameless
    cases s <;> simp [conversionType, isDynamic] at hu settled
    all_goals exact .sequence (.inr rfl) rfl fun f _ => part f
  | map e =>
    have part := keeps_part nameless
    cases s <;> simp [conversionType, isDynamic] at hu settled
    all_goals exact .map rfl fun f _ => part f
  | tuple ts => cases nameless
  | object attrs => cases nameless

end MarkedValues.Ty
