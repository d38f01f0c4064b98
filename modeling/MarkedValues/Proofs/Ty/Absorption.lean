import MarkedValues.Proofs.Ty.Unification

/-!
Unification sees a set of types. Any of the types may stand for the first one, so neither order nor
repetition matters, and the common type that is found absorbs the types it was found for.
-/
namespace MarkedValues.Ty

/-- The common type of types that are not all one, with a given member in the place of the first. -/
def unifyKinds (first : Ty) (ts : List Ty) : Option Ty :=
  if ts.all isPrimitive then some .string
  else if ts.all isSequence then
    if ts.all fun t => t.isTuple && t.tupleElems.length == first.tupleElems.length then
      (allSome ((List.range first.tupleElems.length).map fun i => unify (column ts i))).map .tuple
    else
      (unifyOrDynamic (allSequenceElems ts)).map
        (if ts.any isSet && !ts.any isList then .set else .list)
  else if ts.all isMapping then
    if ts.all fun t => t.isObject && Dict.keys t.objectAttrs == Dict.keys first.objectAttrs then
      (allSome ((Dict.keys first.objectAttrs).map fun k => unify (attrColumn ts k))).map
        (.object <| (Dict.keys first.objectAttrs).zip ·)
    else (unifyOrDynamic (allMappingElems ts)).map .map
  else none

def unifyFrom (first : Ty) (ts : List Ty) : Option Ty :=
  if ts.any isDynamic then some .dynamic
  else if ts.all (· == first) then some first
  else unifyKinds first ts

/-- When a measure agrees with one member's throughout, it agrees with every member's. -/
theorem all_measure_eq {α : Type} [BEq α] [LawfulBEq α] {ts : List Ty} {s t : Ty} (shape : Ty → Bool)
    (measure : Ty → α) (hs : s ∈ ts) (ht : t ∈ ts) :
    (ts.all fun u => shape u && measure u == measure s) =
      ts.all fun u => shape u && measure u == measure t := by
  have half : ∀ {s t : Ty}, t ∈ ts → (ts.all fun u => shape u && measure u == measure s) = true →
      (ts.all fun u => shape u && measure u == measure t) = true := by
    intro s t ht h
    rw [List.all_eq_true] at h ⊢
    intro u hu
    have here := h u hu
    have there := h t ht
    simp only [Bool.and_eq_true, beq_iff_eq] at here there ⊢
    exact ⟨here.1, here.2.trans there.2.symm⟩
  rw [Bool.eq_iff_iff]
  exact ⟨half ht, half hs⟩

theorem measure_eq_of_all {α : Type} [BEq α] [LawfulBEq α] {ts : List Ty} {s t : Ty}
    {shape : Ty → Bool} {measure : Ty → α} (ht : t ∈ ts)
    (h : (ts.all fun u => shape u && measure u == measure s) = true) : measure t = measure s := by
  have here := List.all_eq_true.1 h t ht
  simp only [Bool.and_eq_true, beq_iff_eq] at here
  exact here.2

theorem unifyFrom_eq {ts : List Ty} {s t : Ty} (hs : s ∈ ts) (ht : t ∈ ts) :
    unifyFrom s ts = unifyFrom t ts := by
  have alike : ts.all (· == s) = ts.all (· == t) := by
    simpa using all_measure_eq (fun _ => true) id hs ht
  have lengths := all_measure_eq isTuple (fun u => u.tupleElems.length) hs ht
  have names := all_measure_eq isObject (fun u => Dict.keys u.objectAttrs) hs ht
  unfold unifyFrom unifyKinds
  rw [alike, lengths, names]
  refine ite_congr rfl (fun _ => rfl) fun _ => ite_congr rfl (fun same => ?_) fun _ => ?_
  · have eq : s = t := by simpa using List.all_eq_true.1 same s hs
    rw [eq]
  refine ite_congr rfl (fun _ => rfl) fun _ => ite_congr rfl (fun _ => ?_) fun _ => ?_
  · refine ite_congr rfl (fun same => ?_) fun _ => rfl
    have len := measure_eq_of_all hs same
    rw [len]
  · refine ite_congr rfl (fun _ => ?_) fun _ => rfl
    refine ite_congr rfl (fun same => ?_) fun _ => rfl
    have keys := measure_eq_of_all hs same
    rw [keys]

/-- Any of the types may stand for the first. -/
theorem unify_eq {ts : List Ty} {t : Ty} (ht : t ∈ ts) : unify ts = unifyFrom t ts := by
  obtain ⟨s, rest, rfl⟩ := List.exists_cons_of_ne_nil (List.ne_nil_of_mem ht)
  rw [← unifyFrom_eq List.mem_cons_self ht, unify, dif_neg (List.cons_ne_nil s rest)]
  rfl

section

variable {ts ss : List Ty} (same : ∀ t, t ∈ ts ↔ t ∈ ss)

include same

theorem any_congr (p : Ty → Bool) : ts.any p = ss.any p := by
  rw [Bool.eq_iff_iff, List.any_eq_true, List.any_eq_true]
  simp only [same]

theorem all_congr (p : Ty → Bool) : ts.all p = ss.all p := by
  rw [Bool.eq_iff_iff, List.all_eq_true, List.all_eq_true]
  simp only [same]

theorem eq_nil_congr : ts = [] ↔ ss = [] := by
  simp only [List.eq_nil_iff_forall_not_mem, same]

theorem mem_column_congr (i : Nat) : ∀ t, t ∈ column ts i ↔ t ∈ column ss i := by
  simp only [column, List.mem_filterMap, same, implies_true]

theorem mem_attrColumn_congr (k : String) : ∀ t, t ∈ attrColumn ts k ↔ t ∈ attrColumn ss k := by
  simp only [attrColumn, List.mem_filterMap, same, implies_true]

theorem mem_allSequenceElems_congr : ∀ t, t ∈ allSequenceElems ts ↔ t ∈ allSequenceElems ss := by
  simp only [allSequenceElems, List.mem_flatMap, same, implies_true]

theorem mem_allMappingElems_congr : ∀ t, t ∈ allMappingElems ts ↔ t ∈ allMappingElems ss := by
  simp only [allMappingElems, List.mem_flatMap, same, implies_true]

theorem unifyOrDynamic_congr (h : unify ts = unify ss) : unifyOrDynamic ts = unifyOrDynamic ss := by
  unfold unifyOrDynamic
  refine ite_congr ?_ (fun _ => rfl) fun _ => h
  rw [List.isEmpty_iff, List.isEmpty_iff, eq_nil_congr same]

/-- The common type depends on which types there are, not on how they are listed. -/
theorem unify_congr : unify ts = unify ss := by
  induction hn : depthAll ts using Nat.strongRecOn generalizing ts ss with
  | ind n ih =>
  subst hn
  by_cases none : ts = []
  · rw [none, (eq_nil_congr same).1 none]
  obtain ⟨t, ht⟩ := List.exists_mem_of_ne_nil ts none
  -- What is unified on the way is less deep, and has the same members on both sides.
  have columns : ∀ i, unify (column ts i) = unify (column ss i) := fun i =>
    ih _ (depthAll_column_lt none i) (mem_column_congr same i) rfl
  have names : ∀ k, unify (attrColumn ts k) = unify (attrColumn ss k) := fun k =>
    ih _ (depthAll_attrColumn_lt none k) (mem_attrColumn_congr same k) rfl
  have elems : unifyOrDynamic (allSequenceElems ts) = unifyOrDynamic (allSequenceElems ss) :=
    unifyOrDynamic_congr (mem_allSequenceElems_congr same)
      (ih _ (depthAll_allSequenceElems_lt none) (mem_allSequenceElems_congr same) rfl)
  have values : unifyOrDynamic (allMappingElems ts) = unifyOrDynamic (allMappingElems ss) :=
    unifyOrDynamic_congr (mem_allMappingElems_congr same)
      (ih _ (depthAll_allMappingElems_lt none) (mem_allMappingElems_congr same) rfl)
  rw [unify_eq ht, unify_eq ((same t).1 ht)]
  simp only [unifyFrom, unifyKinds, any_congr same, all_congr same, columns, names, elems, values]

end

theorem unify_of_kinds {ts : List Ty} {t : Ty} (ht : t ∈ ts) (settled : .dynamic ∉ ts)
    (h : unifyKinds t ts = some t) : unify ts = some t := by
  have closed : ¬ ts.any isDynamic = true := by
    simpa [List.any_eq_true] using settled
  rw [unify_eq ht, unifyFrom, if_neg closed, h, ite_self]

theorem not_all_of_mem {ts : List Ty} {t : Ty} {p : Ty → Bool} (ht : t ∈ ts) (h : p t = false) :
    ¬ ts.all p = true := by
  intro all
  rw [List.all_eq_true.1 all t ht] at h
  cases h

theorem allSome_of_forall₂ {α β : Type} {f : α → Option β} {xs : List α} {ys : List β}
    (h : List.Forall₂ (fun x y => f x = some y) xs ys) : allSome (xs.map f) = some ys := by
  induction h with
  | nil => rfl
  | cons hx _ ih => simp [allSome, hx, ih]

section

variable {ts : List Ty}

theorem unify_of_primitives (ht : .string ∈ ts) (primitive : ∀ t ∈ ts, t.isPrimitive = true) :
    unify ts = some .string := by
  have settled : .dynamic ∉ ts := fun mem => nomatch primitive _ mem
  apply unify_of_kinds ht settled
  rw [unifyKinds, if_pos (List.all_eq_true.2 primitive)]

theorem unify_of_tuples {us : List Ty} (ht : .tuple us ∈ ts)
    (shape : ∀ t ∈ ts, t.isTuple = true ∧ t.tupleElems.length = us.length)
    (places : ∀ i u, us[i]? = some u → unify (column ts i) = some u) :
    unify ts = some (.tuple us) := by
  have sequence : ∀ t ∈ ts, t.isSequence = true := fun t h => by simp [isSequence, (shape t h).1]
  have lengths : (ts.all fun t => t.isTuple && t.tupleElems.length ==
      (tuple us).tupleElems.length) = true := by
    simpa [List.all_eq_true, tupleElems] using shape
  have columns : allSome ((List.range us.length).map fun i => unify (column ts i)) = some us := by
    refine allSome_of_forall₂ (Lists.forall₂_of_getElem? List.length_range fun i j u hj hu => ?_)
    obtain rfl : i = j := by simpa using (List.getElem?_eq_some_iff.1 hj).2
    exact places i u hu
  apply unify_of_kinds ht fun mem => by cases sequence _ mem
  rw [unifyKinds, if_neg (not_all_of_mem ht rfl), if_pos (List.all_eq_true.2 sequence),
    if_pos lengths]
  simp only [tupleElems, columns, Option.map_some]

theorem unify_of_sequences {u e : Ty} (made : u.IsSequenceOf e) (ht : u ∈ ts)
    (sequence : ∀ t ∈ ts, t.isSequence = true) (sets : u.isSet = true → ts.any isList = false)
    (elems : unify (allSequenceElems ts) = some e) : unify ts = some u := by
  have elem : e ∈ u.sequenceElems := by
    rcases made with rfl | rfl <;> exact List.mem_singleton_self e
  have inside : e ∈ allSequenceElems ts := List.mem_flatMap.2 ⟨u, ht, elem⟩
  have plain : u.isPrimitive = false ∧ u.isTuple = false := by
    rcases made with rfl | rfl <;> exact ⟨rfl, rfl⟩
  have kind : (if ts.any isSet && !ts.any isList then Ty.set else Ty.list) e = u := by
    rcases made with rfl | rfl
    · have list : ts.any isList = true := List.any_eq_true.2 ⟨_, ht, rfl⟩
      simp [list]
    · have set : ts.any isSet = true := List.any_eq_true.2 ⟨_, ht, rfl⟩
      simp [set, sets rfl]
  apply unify_of_kinds ht fun mem => by cases sequence _ mem
  rw [unifyKinds, if_neg (not_all_of_mem ht plain.1), if_pos (List.all_eq_true.2 sequence),
    if_neg (not_all_of_mem ht (by simp [plain.2])), unifyOrDynamic_of_mem inside, elems,
    Option.map_some, kind]

theorem unify_of_objects {attrs : List (String × Ty)} (ht : .object attrs ∈ ts)
    (shape : ∀ t ∈ ts, t.isObject = true ∧ Dict.keys t.objectAttrs = Dict.keys attrs)
    (names : ∀ a ∈ attrs, unify (attrColumn ts a.1) = some a.2) :
    unify ts = some (.object attrs) := by
  have mapping : ∀ t ∈ ts, t.isMapping = true := fun t h => by simp [isMapping, (shape t h).1]
  have keys : (ts.all fun t => t.isObject && Dict.keys t.objectAttrs ==
      Dict.keys (object attrs).objectAttrs) = true := by
    simpa [List.all_eq_true, objectAttrs] using shape
  have columns : allSome ((Dict.keys attrs).map fun k => unify (attrColumn ts k)) =
      some (Dict.values attrs) := by
    refine allSome_of_forall₂ ?_
    rw [Dict.keys, Dict.values, List.forall₂_map_left_iff, List.forall₂_map_right_iff,
      List.forall₂_same]
    exact names
  have entries : (Dict.keys attrs).zip (Dict.values attrs) = attrs :=
    (List.zip_of_prod rfl rfl).symm
  apply unify_of_kinds ht fun mem => by cases mapping _ mem
  rw [unifyKinds, if_neg (not_all_of_mem ht rfl), if_neg (not_all_of_mem ht rfl),
    if_pos (List.all_eq_true.2 mapping), if_pos keys]
  simp only [objectAttrs, columns, Option.map_some, entries]

theorem unify_of_mappings {e : Ty} (ht : .map e ∈ ts) (mapping : ∀ t ∈ ts, t.isMapping = true)
    (elems : unify (allMappingElems ts) = some e) : unify ts = some (.map e) := by
  have inside : e ∈ allMappingElems ts := List.mem_flatMap.2 ⟨_, ht, List.mem_singleton_self e⟩
  apply unify_of_kinds ht fun mem => by cases mapping _ mem
  rw [unifyKinds, if_neg (not_all_of_mem ht rfl), if_neg (not_all_of_mem ht rfl),
    if_pos (List.all_eq_true.2 mapping), if_neg (not_all_of_mem ht rfl),
    unifyOrDynamic_of_mem inside, elems, Option.map_some]

end

theorem flatMap_subset {ts rs : List Ty} (f : Ty → List Ty) (taken : rs ⊆ ts) :
    rs.flatMap f ⊆ ts.flatMap f := by
  intro e he
  obtain ⟨t, ht, inside⟩ := List.mem_flatMap.1 he
  exact List.mem_flatMap.2 ⟨t, taken ht, inside⟩

/-- What the common type and all the types have in common, those taken with it have too. -/
theorem forall_absorbed {ts rs : List Ty} {P : Ty → Prop} {u : Ty} (taken : rs ⊆ ts) (hu : P u)
    (all : ∀ t ∈ ts, P t) : ∀ t ∈ u :: rs, P t :=
  List.forall_mem_cons.2 ⟨hu, fun t ht => all t (taken ht)⟩

/-- The common type of parts absorbs parts, provided it does so where there are any. -/
theorem unify_cons_of_parts {es fs : List Ty} {e : Ty} (h : unifyOrDynamic es = some e)
    (inside : unify es = some e → unify (e :: fs) = some e) : unify (e :: fs) = some e := by
  obtain ⟨empty, unified⟩ := unify_of_elems h
  by_cases none : es = []
  · rw [empty none]
    exact unify_of_mem_dynamic List.mem_cons_self
  · exact inside (unified none)

/-- Common types absorb as long as the types nest less deep than the bound. -/
def AbsorbsBelow (bound : Nat) : Prop :=
  ∀ (es fs : List Ty) (e : Ty), depthAll es < bound → fs ⊆ es → unify es = some e →
    unify (e :: fs) = some e

section

variable {ts rs : List Ty} (below : AbsorbsBelow (depthAll ts)) (nonempty : ts ≠ [])
  (taken : rs ⊆ ts)

include below nonempty taken

theorem absorbs_tuples {us : List Ty} {n : Nat}
    (lengths : ∀ t ∈ ts, t.isTuple = true ∧ t.tupleElems.length = n)
    (h : allSome ((List.range n).map fun i => unify (column ts i)) = some us) :
    unify (.tuple us :: rs) = some (.tuple us) := by
  have len : us.length = n := by
    simpa using (forall₂_of_allSome h).length_eq.symm
  apply unify_of_tuples List.mem_cons_self
  · exact forall_absorbed taken ⟨rfl, rfl⟩ (len ▸ lengths)
  · intro i v hv
    have places : column (tuple us :: rs) i = v :: column rs i := by
      simp [column, tupleElems, hv]
    rw [places]
    exact below _ _ v (depthAll_column_lt nonempty i) (List.filterMap_subset _ taken)
      (unify_column h hv)

theorem absorbs_sequences {u e : Ty} (made : u.IsSequenceOf e)
    (sequence : ∀ t ∈ ts, t.isSequence = true) (sets : u.isSet = true → ts.any isList = false)
    (h : unifyOrDynamic (allSequenceElems ts) = some e) : unify (u :: rs) = some u := by
  have elems : unify (e :: allSequenceElems rs) = some e := unify_cons_of_parts h
    (below _ _ e (depthAll_allSequenceElems_lt nonempty) (flatMap_subset _ taken))
  have own : u.sequenceElems = [e] ∧ u.isSequence = true := by
    rcases made with rfl | rfl <;> exact ⟨rfl, rfl⟩
  apply unify_of_sequences made List.mem_cons_self
  · exact forall_absorbed taken own.2 sequence
  · intro set
    have noList : ∀ t ∈ ts, t.isList = false := by simpa [List.any_eq_false] using sets set
    have list : u.isList = false := by
      rcases made with rfl | rfl
      · cases set
      · rfl
    simpa [List.any_eq_false] using forall_absorbed taken list noList
  · rwa [allSequenceElems, List.flatMap_cons, own.1]

theorem absorbs_objects {names : List String} {us : List Ty}
    (keys : ∀ t ∈ ts, t.isObject = true ∧ Dict.keys t.objectAttrs = names)
    (h : allSome (names.map fun k => unify (attrColumn ts k)) = some us) :
    unify (.object (names.zip us) :: rs) = some (.object (names.zip us)) := by
  have columns := forall₂_of_allSome h
  have own : Dict.keys (names.zip us) = names := List.map_fst_zip (Nat.le_of_eq columns.length_eq)
  have unified : ∀ a ∈ names.zip us, unify (attrColumn ts a.1) = some a.2 :=
    fun _ ha => (List.forall₂_iff_zip.1 columns).2 ha
  apply unify_of_objects List.mem_cons_self
  · exact forall_absorbed taken ⟨rfl, rfl⟩ (own.symm ▸ keys)
  · intro a ha
    -- Under one name the attributes may be listed twice, but then with one type.
    have found : (names.zip us).lookup a.1 = some a.2 := by
      obtain ⟨v, hv⟩ := Dict.exists_lookup (List.mem_map_of_mem ha : a.1 ∈ Dict.keys (names.zip us))
      have again := unified _ (Dict.mem_of_lookup hv)
      rw [unified a ha] at again
      rw [hv, again]
    have places : attrColumn (object (names.zip us) :: rs) a.1 = a.2 :: attrColumn rs a.1 := by
      simp [attrColumn, objectAttrs, found]
    rw [places]
    exact below _ _ a.2 (depthAll_attrColumn_lt nonempty a.1) (List.filterMap_subset _ taken)
      (unified a ha)

theorem absorbs_mappings {e : Ty} (mapping : ∀ t ∈ ts, t.isMapping = true)
    (h : unifyOrDynamic (allMappingElems ts) = some e) : unify (.map e :: rs) = some (.map e) := by
  have elems : unify (e :: allMappingElems rs) = some e := unify_cons_of_parts h
    (below _ _ e (depthAll_allMappingElems_lt nonempty) (flatMap_subset _ taken))
  exact unify_of_mappings List.mem_cons_self (forall_absorbed taken rfl mapping) elems

/-- Whichever kind of common type was found, it absorbs. -/
theorem absorbs_kinds {first u : Ty} (h : unifyKinds first ts = some u) :
    unify (u :: rs) = some u := by
  rw [unifyKinds] at h
  split at h
  · next primitive =>
    cases h
    exact unify_of_primitives List.mem_cons_self
      (forall_absorbed taken rfl (List.all_eq_true.1 primitive))
  split at h
  · next sequence =>
    rw [List.all_eq_true] at sequence
    split at h
    · next lengths =>
      obtain ⟨us, hus, rfl⟩ := Option.map_eq_some_iff.1 h
      exact absorbs_tuples below nonempty taken (by simpa [List.all_eq_true] using lengths) hus
    · obtain ⟨e, he, made⟩ := Option.map_eq_some_iff.1 h
      split at made
      · next sets =>
        subst made
        simp only [Bool.and_eq_true, Bool.not_eq_true'] at sets
        exact absorbs_sequences below nonempty taken (.inr rfl) sequence (fun _ => sets.2) he
      · subst made
        exact absorbs_sequences below nonempty taken (.inl rfl) sequence nofun he
  split at h
  · next mapping =>
    rw [List.all_eq_true] at mapping
    split at h
    · next names =>
      obtain ⟨us, hus, rfl⟩ := Option.map_eq_some_iff.1 h
      exact absorbs_objects below nonempty taken (by simpa [List.all_eq_true] using names) hus
    · obtain ⟨e, he, rfl⟩ := Option.map_eq_some_iff.1 h
      exact absorbs_mappings below nonempty taken mapping he
  · cases h

end

theorem unify_cons_of_unify {ts rs : List Ty} {u : Ty} (h : unify ts = some u) (taken : rs ⊆ ts) :
    unify (u :: rs) = some u := by
  induction hn : depthAll ts using Nat.strongRecOn generalizing ts rs u with
  | ind n ih =>
  subst hn
  have nonempty : ts ≠ [] := by
    rintro rfl
    rw [unify_nil] at h
    cases h
  have below : AbsorbsBelow (depthAll ts) := fun es fs e less taken he => ih _ less he taken rfl
  obtain ⟨t, ht⟩ := List.exists_mem_of_ne_nil ts nonempty
  rw [unify_eq ht, unifyFrom] at h
  split at h
  · cases h
    exact unify_of_mem_dynamic List.mem_cons_self
  split at h
  · next same =>
    cases h
    have eq : ∀ s ∈ ts, s = u := by simpa [List.all_eq_true] using same
    exact unify_of_forall_eq (List.cons_ne_nil u rs) (forall_absorbed taken rfl eq)
  · exact absorbs_kinds below nonempty taken h

/-- The common type of types is that of any other list of the same types, and stays the common type
    when it is joined with any of them. -/
theorem unify_absorbs (ts : List Ty) :
    (∀ ss : List Ty, (∀ t, t ∈ ts ↔ t ∈ ss) → unify ts = unify ss) ∧
      ∀ u, unify ts = some u → ∀ rs : List Ty, (∀ r ∈ rs, r ∈ ts) → unify (u :: rs) = some u := by
  constructor
  · intro ss same
    exact unify_congr same
  · intro u h rs taken
    exact unify_cons_of_unify h taken

def rowTypes : List Ty := [.list (.tuple [.number]), .set (.tuple [.string, .bool])]

def rowTypesAgain : List Ty :=
  [.set (.tuple [.string, .bool]), .list (.tuple [.number]), .set (.tuple [.string, .bool])]

theorem rowTypes_absorbed :
    (∀ t, t ∈ rowTypes ↔ t ∈ rowTypesAgain) ∧
      unify rowTypesAgain = some (.list (.list .string)) ∧
      unify [.list (.list .string), .set (.tuple [.string, .bool])] =
        some (.list (.list .string)) := by
  have same : ∀ t, t ∈ rowTypes ↔ t ∈ rowTypesAgain := by
    intro t
    simp only [rowTypes, rowTypesAgain, List.mem_cons, List.not_mem_nil, or_false]
    constructor
    · rintro (list | set)
      · exact .inr (.inl list)
      · exact .inl set
    · rintro (set | list | set)
      · exact .inr set
      · exact .inl list
      · exact .inr set
  have common : unify rowTypes = some (.list (.list .string)) := by decide +kernel
  obtain ⟨order, absorbs⟩ := unify_absorbs rowTypes
  refine ⟨same, (order rowTypesAgain same).symm.trans common, ?_⟩
  apply absorbs _ common
  simp [rowTypes]

end MarkedValues.Ty
