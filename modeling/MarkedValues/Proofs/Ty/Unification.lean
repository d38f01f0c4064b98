import MarkedValues.Proofs.Ty.Filling

/-!
How types unify. `Unifies` lists the ways in which a common type is found; what holds of every
common type is proved along it. `ElementTarget` does the same for the element type of a converted
collection, which may be such a common type.
-/
namespace MarkedValues.Ty

def IsSequenceOf (t e : Ty) : Prop := t = .list e ∨ t = .set e

/-- The ways in which `u` is the common type of `ts`. -/
inductive Unifies : List Ty → Ty → Prop
  | dynamic {ts : List Ty} : .dynamic ∈ ts → Unifies ts .dynamic
  | same {ts : List Ty} {u : Ty} : u ∈ ts → (∀ t ∈ ts, t = u) → Unifies ts u
  | string {ts : List Ty} : (∀ t ∈ ts, t.isPrimitive = true) → Unifies ts .string
  | tuple {ts us : List Ty} : (∀ t ∈ ts, ∃ es, t = .tuple es ∧ es.length = us.length) →
    (∀ i u, us[i]? = some u → Unifies (column ts i) u) → Unifies ts (.tuple us)
  | sequence {ts : List Ty} {u e : Ty} : u.IsSequenceOf e → (∀ t ∈ ts, t.isSequence = true) →
    (allSequenceElems ts = [] → e = .dynamic) →
    (allSequenceElems ts ≠ [] → Unifies (allSequenceElems ts) e) → Unifies ts u
  | object {ts : List Ty} {attrs : List (String × Ty)} : ts ≠ [] →
    (∀ t ∈ ts, ∃ fields, t = .object fields ∧ Dict.keys fields = Dict.keys attrs) →
    (∀ a ∈ attrs, Unifies (attrColumn ts a.1) a.2) → Unifies ts (.object attrs)
  | map {ts : List Ty} {e : Ty} : (∀ t ∈ ts, t.isMapping = true) →
    (allMappingElems ts = [] → e = .dynamic) →
    (allMappingElems ts ≠ [] → Unifies (allMappingElems ts) e) → Unifies ts (.map e)

theorem allSome_map_some {α β : Type} (g : α → β) (as : List α) :
    allSome (as.map fun a => some (g a)) = some (as.map g) := by
  induction as with
  | nil => rfl
  | cons a as ih => simp [allSome, ih]

theorem forall₂_of_allSome {α β : Type} {f : α → Option β} {xs : List α} {ys : List β}
    (h : allSome (xs.map f) = some ys) : List.Forall₂ (fun x y => f x = some y) xs ys := by
  induction xs generalizing ys with
  | nil =>
    cases h
    exact .nil
  | cons x xs ih =>
    rw [List.map_cons] at h
    cases hx : f x with
    | none =>
      rw [hx] at h
      cases h
    | some y =>
      rw [hx] at h
      obtain ⟨zs, hzs, rfl⟩ := Option.map_eq_some_iff.1 h
      exact .cons hx (ih hzs)

theorem tuple_of_sameLength {ts : List Ty} (h : sameLength ts = true) :
    ∀ t ∈ ts, ∃ es, t = .tuple es ∧ es.length = (ts.headD .dynamic).tupleElems.length := by
  intro t ht
  have each := List.all_eq_true.1 h t ht
  rw [Bool.and_eq_true, beq_iff_eq] at each
  obtain ⟨shape, len⟩ := each
  cases t <;> simp [isTuple] at shape
  exact ⟨_, rfl, len⟩

theorem object_of_sameNames {ts : List Ty} (h : sameNames ts = true) :
    ∀ t ∈ ts, ∃ fields, t = .object fields ∧
      Dict.keys fields = Dict.keys (ts.headD .dynamic).objectAttrs := by
  intro t ht
  have each := List.all_eq_true.1 h t ht
  rw [Bool.and_eq_true, beq_iff_eq] at each
  obtain ⟨shape, names⟩ := each
  cases t <;> simp [isObject] at shape
  exact ⟨_, rfl, names⟩

theorem unify_column {ts us : List Ty} {n i : Nat} {u : Ty}
    (h : allSome ((List.range n).map fun i => unify (column ts i)) = some us)
    (hu : us[i]? = some u) : unify (column ts i) = some u := by
  have columns := forall₂_of_allSome h
  obtain ⟨hi, rfl⟩ := List.getElem?_eq_some_iff.1 hu
  have place := columns.get (by rw [columns.length_eq]; exact hi) hi
  simpa using place

theorem unify_of_elems {es : List Ty} {e : Ty}
    (h : (if es.isEmpty then some .dynamic else unify es) = some e) :
    (es = [] → e = .dynamic) ∧ (es ≠ [] → unify es = some e) := by
  constructor
  · intro none
    simpa [none, eq_comm] using h
  · intro some
    rwa [if_neg (by simpa using some)] at h

/-- A common type is found in one of these ways. -/
theorem unifies_of_unify {ts : List Ty} {u : Ty} (h : unify ts = some u) : Unifies ts u := by
  induction hn : depthAll ts using Nat.strongRecOn generalizing ts u with
  | ind n ih =>
  subst hn
  rw [unify] at h
  split at h
  · contradiction
  next nonempty =>
  -- Whatever list is unified on the way is less deep than the one at hand.
  have inside : ∀ {us : List Ty} {v : Ty}, depthAll us < depthAll ts → unify us = some v →
      Unifies us v := fun below hv => ih _ below hv rfl
  simp only at h
  by_cases open_ : ts.any isDynamic = true
  · rw [if_pos open_] at h
    cases h
    obtain ⟨t, ht, dynamic⟩ := List.any_eq_true.1 open_
    exact .dynamic (isDynamic_iff.1 dynamic ▸ ht)
  rw [if_neg open_] at h
  by_cases same : ts.all (· == ts.headD .dynamic) = true
  · rw [if_pos same] at h
    cases h
    obtain ⟨t, rest, rfl⟩ := List.exists_cons_of_ne_nil nonempty
    refine .same (by simp) fun s hs => ?_
    simpa using List.all_eq_true.1 same s hs
  rw [if_neg same] at h
  by_cases primitive : ts.all isPrimitive = true
  · rw [if_pos primitive] at h
    cases h
    exact .string (List.all_eq_true.1 primitive)
  rw [if_neg primitive] at h
  by_cases sequence : ts.all isSequence = true
  · rw [if_pos sequence] at h
    by_cases lengths : sameLength ts = true
    · rw [if_pos lengths] at h
      obtain ⟨us, hus, rfl⟩ := Option.map_eq_some_iff.1 h
      have columns := forall₂_of_allSome hus
      have len : us.length = (ts.headD .dynamic).tupleElems.length := by
        simpa using columns.length_eq.symm
      refine .tuple (len ▸ tuple_of_sameLength lengths) fun i v hv => ?_
      have place := unify_column hus hv
      exact inside (depthAll_column_lt nonempty i) place
    · rw [if_neg lengths] at h
      obtain ⟨e, he, rfl⟩ := Option.map_eq_some_iff.1 h
      obtain ⟨empty, unified⟩ := unify_of_elems he
      have elems : allSequenceElems ts ≠ [] → Unifies (allSequenceElems ts) e :=
        fun some => inside (depthAll_allSequenceElems_lt nonempty) (unified some)
      split
      · exact .sequence (.inr rfl) (List.all_eq_true.1 sequence) empty elems
      · exact .sequence (.inl rfl) (List.all_eq_true.1 sequence) empty elems
  rw [if_neg sequence] at h
  by_cases mapping : ts.all isMapping = true
  · rw [if_pos mapping] at h
    by_cases names : sameNames ts = true
    · rw [if_pos names] at h
      obtain ⟨us, hus, rfl⟩ := Option.map_eq_some_iff.1 h
      have columns := forall₂_of_allSome hus
      have keys : Dict.keys ((Dict.keys (ts.headD .dynamic).objectAttrs).zip us) =
          Dict.keys (ts.headD .dynamic).objectAttrs :=
        List.map_fst_zip (Nat.le_of_eq columns.length_eq)
      refine .object nonempty (fun t ht => ?_) fun a ha => ?_
      · rw [keys]
        exact object_of_sameNames names t ht
      · exact inside (depthAll_attrColumn_lt nonempty a.1) ((List.forall₂_iff_zip.1 columns).2 ha)
    · rw [if_neg names] at h
      obtain ⟨e, he, rfl⟩ := Option.map_eq_some_iff.1 h
      obtain ⟨empty, unified⟩ := unify_of_elems he
      have elems : allMappingElems ts ≠ [] → Unifies (allMappingElems ts) e :=
        fun some => inside (depthAll_allMappingElems_lt nonempty) (unified some)
      exact .map (List.all_eq_true.1 mapping) empty elems
  · rw [if_neg mapping] at h
    contradiction

theorem canonical_tupleElems {t e : Ty} (h : t.Canonical) (he : e ∈ t.tupleElems) :
    e.Canonical := by
  cases t <;> simp only [tupleElems, List.not_mem_nil] at he
  exact canonicalAll_iff.1 h e he

theorem canonical_sequenceElems {t e : Ty} (h : t.Canonical) (he : e ∈ t.sequenceElems) :
    e.Canonical := by
  cases t <;> simp only [sequenceElems, List.not_mem_nil, List.mem_singleton] at he
  · exact he ▸ h
  · exact he ▸ h
  · exact canonicalAll_iff.1 h e he

theorem canonical_mappingElems {t e : Ty} (h : t.Canonical) (he : e ∈ t.mappingElems) :
    e.Canonical := by
  cases t <;> simp only [mappingElems, List.not_mem_nil, List.mem_singleton] at he
  · exact he ▸ h
  · obtain ⟨a, ha, rfl⟩ := List.mem_map.1 he
    exact canonicalAttrs_iff.1 h.2 a ha

theorem canonical_objectAttrs {t e : Ty} {k : String} (h : t.Canonical)
    (he : t.objectAttrs.lookup k = some e) : e.Canonical := by
  cases t <;> simp only [objectAttrs, List.lookup_nil, reduceCtorEq] at he
  exact canonicalAttrs_iff.1 h.2 _ (Dict.mem_of_lookup he)

theorem canonical_of_unifies {ts : List Ty} {u : Ty} (h : Unifies ts u)
    (canonical : ∀ t ∈ ts, t.Canonical) : u.Canonical := by
  induction h with
  | dynamic _ => trivial
  | same hu _ => exact canonical _ hu
  | string _ => trivial
  | tuple _ _ ih =>
    refine canonicalAll_iff.2 fun u hu => ?_
    obtain ⟨i, hi⟩ := List.mem_iff_getElem?.1 hu
    refine ih i u hi fun e he => ?_
    obtain ⟨t, ht, hget⟩ := List.mem_filterMap.1 he
    exact canonical_tupleElems (canonical t ht) (List.mem_of_getElem? hget)
  | @sequence ts u e made _ empty _ ih =>
    have elem : e.Canonical := by
      by_cases none : allSequenceElems ts = []
      · rw [empty none]
        trivial
      · refine ih none fun e he => ?_
        obtain ⟨t, ht, hmem⟩ := List.mem_flatMap.1 he
        exact canonical_sequenceElems (canonical t ht) hmem
    rcases made with rfl | rfl <;> exact elem
  | object nonempty shape _ ih =>
    obtain ⟨t, ht⟩ := List.exists_mem_of_ne_nil _ nonempty
    obtain ⟨fields, rfl, keys⟩ := shape t ht
    have sorted : Dict.Sorted fields := (canonical _ ht).1
    refine ⟨sorted.of_keys_eq keys.symm, canonicalAttrs_iff.2 fun a ha => ?_⟩
    refine ih a ha fun e he => ?_
    obtain ⟨t, ht, hget⟩ := List.mem_filterMap.1 he
    exact canonical_objectAttrs (canonical t ht) hget
  | @map ts e _ empty _ ih =>
    by_cases none : allMappingElems ts = []
    · rw [empty none]
      trivial
    · refine ih none fun e he => ?_
      obtain ⟨t, ht, hmem⟩ := List.mem_flatMap.1 he
      exact canonical_mappingElems (canonical t ht) hmem

theorem canonical_unify {ts : List Ty} {u : Ty} (canonical : ∀ t ∈ ts, t.Canonical)
    (h : unify ts = some u) : u.Canonical :=
  canonical_of_unifies (unifies_of_unify h) canonical

/-- The ways in which conversion finds the element type of a collection, asked for as `e`, from the
    types of the elements. -/
inductive ElementTarget (sources : List Ty) (e : Ty) : Ty → Prop
  | given : ElementTarget sources e e
  | single {f u : Ty} : sources = [f] → conversionType f e = some u → ElementTarget sources e u
  | open_ : e = .dynamic → sources = [] → ElementTarget sources e .dynamic
  | common {u : Ty} : e = .dynamic → unify sources = some u → ElementTarget sources e u

theorem elementTarget_cases {fs : List Ty} {e u : Ty} {target : Ty → Option Ty}
    (h : elementTarget fs e target = some u) : ElementTarget fs e u := by
  unfold elementTarget at h
  split at h
  · next dynamic =>
    rw [isDynamic_iff] at dynamic
    unfold unifyOrDynamic at h
    split at h
    · next none =>
      cases h
      exact .open_ dynamic (List.isEmpty_iff.1 none)
    · exact .common dynamic h
  · split at h
    · cases h
      exact .given
    · contradiction

theorem conversionType_sequence {s t e u : Ty} (made : t.IsSequenceOf e)
    (h : conversionType s t = some u) :
    ∃ v, (t = .list e ∧ u = .list v ∨ t = .set e ∧ u = .set v) ∧
      ElementTarget s.sequenceElems e v := by
  rcases made with rfl | rfl
  all_goals
    simp only [conversionType] at h
    split at h
    · cases h
      exact ⟨e, by simp, .given⟩
    · split at h
      · obtain ⟨v, hv, rfl⟩ := Option.map_eq_some_iff.1 h
        exact ⟨v, by simp, .single rfl hv⟩
      · obtain ⟨v, hv, rfl⟩ := Option.map_eq_some_iff.1 h
        exact ⟨v, by simp, .single rfl hv⟩
      · obtain ⟨v, hv, rfl⟩ := Option.map_eq_some_iff.1 h
        exact ⟨v, by simp, elementTarget_cases hv⟩
      · contradiction

theorem conversionType_map {s e u : Ty} (h : conversionType s (.map e) = some u) :
    ∃ v, u = .map v ∧ ElementTarget s.mappingElems e v := by
  simp only [conversionType] at h
  split at h
  · cases h
    exact ⟨e, rfl, .given⟩
  · split at h
    · obtain ⟨v, hv, rfl⟩ := Option.map_eq_some_iff.1 h
      exact ⟨v, rfl, .single rfl hv⟩
    · obtain ⟨v, hv, rfl⟩ := Option.map_eq_some_iff.1 h
      exact ⟨v, rfl, elementTarget_cases hv⟩
    · contradiction

theorem unify_of_mem_dynamic {ts : List Ty} (h : .dynamic ∈ ts) : unify ts = some .dynamic := by
  have open_ : ts.any isDynamic = true := List.any_eq_true.2 ⟨.dynamic, h, rfl⟩
  rw [unify, dif_neg (List.ne_nil_of_mem h)]
  simp only [if_pos open_]

theorem unify_nil : unify [] = none := by
  rw [unify, dif_pos rfl]

theorem unifyOrDynamic_of_mem {ts : List Ty} {e : Ty} (he : e ∈ ts) :
    unifyOrDynamic ts = unify ts := by
  rw [unifyOrDynamic, if_neg (by simpa using List.ne_nil_of_mem he)]

theorem unify_of_forall_eq {ts : List Ty} {t : Ty} (some_ : ts ≠ []) (same : ∀ u ∈ ts, u = t) :
    unify ts = some t := by
  obtain ⟨u, rest, rfl⟩ := List.exists_cons_of_ne_nil some_
  obtain rfl : u = t := same u (by simp)
  by_cases open_ : u = .dynamic
  · subst open_
    exact unify_of_mem_dynamic (by simp)
  · have closed : ¬ (u :: rest).any isDynamic = true := by
      rw [List.any_eq_true]
      rintro ⟨v, hv, dynamic⟩
      rw [same v hv, isDynamic_iff] at dynamic
      exact open_ dynamic
    have first : (u :: rest).all (· == u) = true := by
      simpa [List.all_eq_true] using fun v hv => same v (by simp [hv])
    rw [unify, dif_neg some_]
    simp only [if_neg closed, List.headD_cons]
    exact if_pos first

theorem unify_singleton {t u : Ty} (h : unify [t] = some u) : u = t := by
  rw [unify, dif_neg (by simp)] at h
  by_cases open_ : t.isDynamic = true
  · simp only [List.any_cons, open_, Bool.true_or, if_true, Option.some.injEq] at h
    rw [← h, isDynamic_iff.1 open_]
  · simp [open_] at h
    exact h.symm

/-- An element type that was left open and then filled in is not changed again. -/
theorem elementTarget_settled {sources : List Ty} {u v : Ty}
    (h : ElementTarget sources .dynamic u) (again : ElementTarget sources u v) :
    v = u ∨ u = .dynamic := by
  cases again with
  | given => exact .inl rfl
  | open_ hu _ => exact .inr hu
  | common hu _ => exact .inr hu
  | @single f _ hs hv =>
    subst hs
    cases h with
    | given => exact .inr rfl
    | open_ _ none => cases none
    | single hs hu =>
      cases hs
      cases hu
      rw [conversionType_self] at hv
      exact .inl (Option.some.inj hv).symm
    | common _ hu =>
      rw [unify_singleton hu, conversionType_self] at hv
      rw [unify_singleton hu]
      exact .inl (Option.some.inj hv).symm

theorem conversionTypes_getElem? {fs ts us : List Ty} (len : fs.length = ts.length)
    (h : conversionTypes fs ts = some us) {i : Nat} {u : Ty} (hu : us[i]? = some u) :
    ∃ f t, fs[i]? = some f ∧ ts[i]? = some t ∧ conversionType f t = some u := by
  induction ts generalizing fs us i with
  | nil =>
    cases List.length_eq_zero_iff.1 len
    simp only [conversionTypes, Option.some.injEq] at h
    subst h
    cases hu
  | cons t ts ih =>
    obtain ⟨f, rest, rfl⟩ := List.exists_cons_of_length_eq_add_one len
    simp only [conversionTypes, Option.bind_eq_bind, Option.bind_eq_some_iff] at h
    obtain ⟨v, hv, vs, hvs, heq⟩ := h
    cases heq
    cases i with
    | zero =>
      cases hu
      exact ⟨f, t, rfl, rfl, hv⟩
    | succ i => exact ih (Nat.succ.inj len) hvs hu

theorem conversionAttrs_mem {source : String → Option Ty} {attrs us : List (String × Ty)}
    (h : conversionAttrs source attrs = some us) {k : String} {u : Ty} (hu : (k, u) ∈ us) :
    ∃ f t, source k = some f ∧ (k, t) ∈ attrs ∧ conversionType f t = some u := by
  induction attrs generalizing us with
  | nil =>
    cases h
    cases hu
  | cons a attrs ih =>
    simp only [conversionAttrs, Option.bind_eq_bind, Option.bind_eq_some_iff] at h
    obtain ⟨f, hf, v, hv, vs, hvs, heq⟩ := h
    cases heq
    rcases List.mem_cons.1 hu with heq | hu
    · cases heq
      exact ⟨f, a.2, hf, by simp, hv⟩
    · obtain ⟨g, t, hg, ht, hconv⟩ := ih hvs hu
      exact ⟨g, t, hg, List.mem_cons_of_mem _ ht, hconv⟩

theorem conversionAttrs_lookup {source : String → Option Ty} {attrs us : List (String × Ty)}
    (h : conversionAttrs source attrs = some us) {k : String} {u : Ty}
    (hu : us.lookup k = some u) :
    ∃ f t, source k = some f ∧ attrs.lookup k = some t ∧ conversionType f t = some u := by
  induction attrs generalizing us with
  | nil =>
    cases h
    cases hu
  | cons a attrs ih =>
    obtain ⟨l, t⟩ := a
    simp only [conversionAttrs, Option.bind_eq_bind, Option.bind_eq_some_iff] at h
    obtain ⟨f, hf, v, hv, vs, hvs, heq⟩ := h
    cases heq
    by_cases hk : k = l
    · subst hk
      rw [Dict.lookup_cons_self] at hu
      cases hu
      exact ⟨f, t, hf, Dict.lookup_cons_self k t attrs, hv⟩
    · rw [Dict.lookup_cons_of_ne hk] at hu
      rw [Dict.lookup_cons_of_ne hk]
      exact ih hvs hu

theorem keys_of_conversionAttrs {source : String → Option Ty} {attrs us : List (String × Ty)}
    (h : conversionAttrs source attrs = some us) : Dict.keys us = Dict.keys attrs :=
  keys_eq_of_matchesAttrs (conversionAttrs_matches (fun _ _ _ _ => conversionType_matches) h)

theorem conversionType_tuple {s u : Ty} {ts : List Ty} (h : conversionType s (.tuple ts) = some u) :
    u = .tuple ts ∨ ∃ fs us, u = .tuple us ∧ fs.length = ts.length ∧
      (∀ f ∈ fs, f ∈ s.sequenceElems) ∧ (s.isTuple = true → fs = s.tupleElems) ∧
      conversionTypes fs ts = some us := by
  simp only [conversionType] at h
  split at h
  · cases h
    exact .inl rfl
  · split at h
    · split at h
      · next len =>
        obtain ⟨us, hus, rfl⟩ := Option.map_eq_some_iff.1 h
        exact .inr ⟨_, us, rfl, eq_of_beq len, fun f hf => hf, fun _ => rfl, hus⟩
      · contradiction
    · obtain ⟨us, hus, rfl⟩ := Option.map_eq_some_iff.1 h
      refine .inr ⟨_, us, rfl, by simp, fun f hf => ?_, (fun ht => by cases ht), hus⟩
      exact List.mem_singleton.2 (List.eq_of_mem_replicate hf)
    · obtain ⟨us, hus, rfl⟩ := Option.map_eq_some_iff.1 h
      refine .inr ⟨_, us, rfl, by simp, fun f hf => ?_, (fun ht => by cases ht), hus⟩
      exact List.mem_singleton.2 (List.eq_of_mem_replicate hf)
    · contradiction

theorem conversionType_object {s u : Ty} {attrs : List (String × Ty)}
    (h : conversionType s (.object attrs) = some u) :
    u = .object attrs ∨ ∃ source us, u = .object us ∧
      (∀ k f, source k = some f → f ∈ s.mappingElems) ∧
      (s.isObject = true → source = (s.objectAttrs.lookup ·)) ∧
      conversionAttrs source attrs = some us := by
  simp only [conversionType] at h
  split at h
  · cases h
    exact .inl rfl
  · split at h
    · obtain ⟨us, hus, rfl⟩ := Option.map_eq_some_iff.1 h
      refine .inr ⟨_, us, rfl, fun k f hf => ?_, fun _ => rfl, hus⟩
      exact List.mem_map_of_mem (Dict.mem_of_lookup hf)
    · obtain ⟨us, hus, rfl⟩ := Option.map_eq_some_iff.1 h
      refine .inr ⟨_, us, rfl, fun k f hf => ?_, (fun ht => by cases ht), hus⟩
      cases hf
      exact List.mem_singleton.2 rfl
    · contradiction

theorem canonical_elementTarget {sources : List Ty} {e u : Ty}
    (canonical : ∀ f ∈ sources, f.Canonical) (given : e.Canonical)
    (each : ∀ f u, f.Canonical → conversionType f e = some u → u.Canonical)
    (h : ElementTarget sources e u) : u.Canonical := by
  cases h with
  | given => exact given
  | @single f u hs hu =>
    subst hs
    exact each f u (canonical f (by simp)) hu
  | open_ _ _ => trivial
  | common _ hu => exact canonical_unify canonical hu

/-- Conversion keeps the names of all objects in ascending order. -/
theorem canonical_conversionType {s t u : Ty} (hs : s.Canonical) (ht : t.Canonical)
    (h : conversionType s t = some u) : u.Canonical := by
  induction t generalizing s u with
  | dynamic =>
    cases h
    exact hs
  | string | number | bool =>
    rw [conversionType_matches h]
    trivial
  | list e ih =>
    obtain ⟨v, made, hv⟩ := conversionType_sequence (.inl rfl) h
    have given : e.Canonical := canonical_list.1 ht
    have elem : v.Canonical := canonical_elementTarget
      (fun f hf => canonical_sequenceElems hs hf) given (fun _ _ hf hu => ih hf given hu) hv
    rcases made with ⟨_, rfl⟩ | ⟨heq, _⟩
    · exact elem
    · cases heq
  | set e ih =>
    obtain ⟨v, made, hv⟩ := conversionType_sequence (.inr rfl) h
    have given : e.Canonical := canonical_set.1 ht
    have elem : v.Canonical := canonical_elementTarget
      (fun f hf => canonical_sequenceElems hs hf) given (fun _ _ hf hu => ih hf given hu) hv
    rcases made with ⟨heq, _⟩ | ⟨_, rfl⟩
    · cases heq
    · exact elem
  | map e ih =>
    obtain ⟨v, rfl, hv⟩ := conversionType_map h
    have given : e.Canonical := canonical_map.1 ht
    have elem : v.Canonical := canonical_elementTarget
      (fun f hf => canonical_mappingElems hs hf) given (fun _ _ hf hu => ih hf given hu) hv
    exact elem
  | tuple ts ih =>
    rcases conversionType_tuple h with rfl | ⟨fs, us, rfl, len, sources, _, hus⟩
    · exact ht
    · refine canonicalAll_iff.2 fun u hu => ?_
      obtain ⟨i, hi⟩ := List.mem_iff_getElem?.1 hu
      obtain ⟨f, t, hf, ht', hconv⟩ := conversionTypes_getElem? len hus hi
      have hf := canonical_sequenceElems hs (sources f (List.mem_of_getElem? hf))
      have mem := List.mem_of_getElem? ht'
      exact ih t mem hf (canonicalAll_iff.1 ht t mem) hconv
  | object attrs ih =>
    rcases conversionType_object h with rfl | ⟨source, us, rfl, sources, _, hus⟩
    · exact ht
    · refine ⟨ht.1.of_keys_eq (keys_of_conversionAttrs hus), canonicalAttrs_iff.2 fun a ha => ?_⟩
      obtain ⟨f, t, hf, mem, hconv⟩ := conversionAttrs_mem hus ha
      have hf := canonical_mappingElems hs (sources _ f hf)
      exact ih _ mem hf (canonicalAttrs_iff.1 ht.2 _ mem) hconv

end MarkedValues.Ty
