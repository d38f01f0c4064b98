import MarkedValues.Dict

/-!
Laws of maps in canonical form: an entry is found under its key, building a map from its own entries
gives it back, and building commutes with a change of the values.
-/
namespace MarkedValues.Dict

variable {α β : Type}

theorem ext {c d : Dict α} (keys : c.keys = d.keys) (values : c.values = d.values) : c = d := by
  induction c generalizing d with
  | nil =>
    cases d with
    | nil => rfl
    | cons e d => cases keys
  | cons e c ih =>
    cases d with
    | nil => cases keys
    | cons f d =>
      simp only [Dict.keys, Dict.values, List.map_cons, List.cons.injEq] at keys values
      rw [ih keys.2 values.2, Prod.ext keys.1 values.1]

theorem Sorted.tail {e : String × α} {d : Dict α} (h : Sorted (e :: d)) : d.Sorted :=
  (List.pairwise_cons.1 h).2

theorem Sorted.head_lt {e : String × α} {d : Dict α} (h : Sorted (e :: d)) :
    ∀ f ∈ d, e.1 < f.1 := by
  intro f hf
  exact (List.pairwise_cons.1 h).1 f.1 (List.mem_map_of_mem hf)

theorem mem_before {before after : Dict α} {e f : String × α}
    (sorted : Sorted (before ++ e :: after)) (mem : f ∈ before ++ e :: after) (less : f.1 < e.1) :
    f ∈ before := by
  rcases List.mem_append.1 mem with here | behind
  · exact here
  · have tail : Sorted (e :: after) := by
      unfold Sorted keys at sorted ⊢
      rw [List.map_append] at sorted
      exact (List.pairwise_append.1 sorted).2.1
    rcases List.mem_cons.1 behind with rfl | later
    · exact absurd less (String.lt_irrefl _)
    · exact absurd (String.lt_trans less (tail.head_lt f later)) (String.lt_irrefl _)

theorem Sorted.lookup_tail {e : String × α} {d : Dict α} (h : Sorted (e :: d)) :
    d.lookup e.1 = none := by
  refine List.lookup_eq_none_iff.2 fun f hf => ?_
  have less := h.head_lt f hf
  have differ : e.1 ≠ f.1 := fun same => String.lt_irrefl f.1 (by rwa [same] at less)
  simpa using differ

theorem Sorted.of_keys_eq {d : Dict α} {c : Dict β} (h : d.Sorted) (same : c.keys = d.keys) :
    c.Sorted := by
  unfold Sorted
  rw [same]
  exact h

theorem lookup_of_mem {d : Dict α} (h : d.Sorted) {k : String} {v : α} (mem : (k, v) ∈ d) :
    d.lookup k = some v := by
  induction d with
  | nil => cases mem
  | cons e rest ih =>
    obtain ⟨l, w⟩ := e
    rcases List.mem_cons.1 mem with heq | mem
    · cases heq
      exact lookup_cons_self k v rest
    · have hlt : l < k := h.head_lt _ mem
      have hne : k ≠ l := fun e => String.lt_irrefl l (by rwa [e] at hlt)
      rw [lookup_cons_of_ne hne]
      exact ih h.tail mem

theorem ext_lookup {c d : Dict α} (hc : c.Sorted) (hd : d.Sorted)
    (same : ∀ k, c.lookup k = d.lookup k) : c = d := by
  have entries : ∀ {b : Dict α}, b.Sorted → b.Pairwise fun e f => e.1 < f.1 :=
    fun sorted => List.pairwise_map.1 sorted
  have nodup : ∀ {b : Dict α}, b.Sorted → b.Nodup := by
    intro b sorted
    refine (entries sorted).imp ?_
    rintro e _ less rfl
    exact String.lt_irrefl _ less
  have members : ∀ e, e ∈ c ↔ e ∈ d := by
    intro e
    constructor
    · intro mem
      exact mem_of_lookup ((same e.1).symm.trans (lookup_of_mem hc mem))
    · intro mem
      exact mem_of_lookup ((same e.1).trans (lookup_of_mem hd mem))
  refine List.Perm.eq_of_pairwise ?_ (entries hc) (entries hd)
    ((List.perm_ext_iff_of_nodup (nodup hc) (nodup hd)).2 members)
  intro e f _ _ less greater
  exact absurd (String.lt_trans less greater) (String.lt_irrefl _)

theorem exists_lookup {d : Dict α} {k : String} (h : k ∈ d.keys) : ∃ v, d.lookup k = some v := by
  obtain ⟨e, he, rfl⟩ := List.mem_map.1 h
  refine Option.ne_none_iff_exists'.1 fun none => ?_
  simpa using List.lookup_eq_none_iff.1 none e he

theorem insert_append {d : Dict α} {k : String} (v : α) (above : ∀ e ∈ d, e.1 < k) :
    insert k v d = d ++ [(k, v)] := by
  induction d with
  | nil => rfl
  | cons e rest ih =>
    have hlt : e.1 < k := above e (by simp)
    have hnlt : ¬ k < e.1 := fun h => String.lt_irrefl _ (String.lt_trans h hlt)
    have hne : k ≠ e.1 := fun h => String.lt_irrefl k (by rwa [← h] at hlt)
    rw [insert, if_neg hnlt, if_neg hne, ih fun f hf => above f (by simp [hf])]
    rfl

theorem insertAll_of_sorted {d entries : Dict α} (h : (d ++ entries).Sorted) :
    insertAll d entries = d ++ entries := by
  induction entries generalizing d with
  | nil => simp [insertAll]
  | cons e rest ih =>
    have above : ∀ f ∈ d, f.1 < e.1 := by
      intro f hf
      have parts : (keys d ++ keys (e :: rest)).Pairwise (· < ·) := by
        rw [keys, keys, ← List.map_append]
        exact h
      exact (List.pairwise_append.1 parts).2.2 f.1 (List.mem_map_of_mem hf) e.1 List.mem_cons_self
    have step : insertAll d (e :: rest) = insertAll (insert e.1 e.2 d) rest := rfl
    rw [step, insert_append e.2 above, ih (by simpa using h)]
    simp

theorem ofList_of_sorted {d : Dict α} (h : d.Sorted) : ofList d = d := by
  simpa [ofList] using insertAll_of_sorted (d := []) (by simpa using h)

section

variable (f : α → β)

def mapValues (d : Dict α) : Dict β := d.map fun e => (e.1, f e.2)

@[simp] theorem keys_mapValues (d : Dict α) : (d.mapValues f).keys = d.keys := by
  simp [keys, mapValues]

@[simp] theorem values_mapValues (d : Dict α) : (d.mapValues f).values = d.values.map f := by
  simp [values, mapValues]

theorem insert_mapValues (k : String) (v : α) (d : Dict α) :
    insert k (f v) (d.mapValues f) = (insert k v d).mapValues f := by
  induction d with
  | nil => rfl
  | cons e rest ih =>
    have cons : mapValues f (e :: rest) = (e.1, f e.2) :: mapValues f rest := rfl
    rw [cons, insert, insert]
    split
    · rfl
    · split
      · rfl
      · rw [ih]
        rfl

theorem insertAll_mapValues (d entries : Dict α) :
    insertAll (d.mapValues f) (entries.mapValues f) = (insertAll d entries).mapValues f := by
  induction entries generalizing d with
  | nil => rfl
  | cons e rest ih =>
    have step : ∀ c : Dict α, insertAll c (e :: rest) = insertAll (insert e.1 e.2 c) rest :=
      fun _ => rfl
    rw [step, ← ih, ← insert_mapValues]
    rfl

theorem ofList_mapValues (entries : Dict α) :
    ofList (entries.mapValues f) = (ofList entries).mapValues f :=
  insertAll_mapValues f [] entries

theorem lookup_mapValues (d : Dict α) (k : String) :
    (d.mapValues f).lookup k = (d.lookup k).map f := by
  induction d with
  | nil => rfl
  | cons e rest ih =>
    have cons : mapValues f (e :: rest) = (e.1, f e.2) :: mapValues f rest := rfl
    obtain ⟨l, w⟩ := e
    by_cases hk : k = l
    · subst hk
      simp [cons]
    · rw [cons, lookup_cons_of_ne hk, lookup_cons_of_ne hk, ih]

end

theorem mem_insert {k : String} {v : α} {d : Dict α} {e : String × α} (h : e ∈ insert k v d) :
    e = (k, v) ∨ e ∈ d := by
  induction d with
  | nil => simpa [insert] using h
  | cons f rest ih =>
    rw [insert] at h
    split at h
    · simpa using h
    · split at h
      · rcases List.mem_cons.1 h with h | h
        · exact .inl h
        · exact .inr (List.mem_cons_of_mem _ h)
      · rcases List.mem_cons.1 h with h | h
        · exact .inr (h ▸ List.mem_cons_self)
        · exact (ih h).imp_right (List.mem_cons_of_mem _)

theorem mem_insertAll {d entries : Dict α} {e : String × α} (h : e ∈ insertAll d entries) :
    e ∈ entries ∨ e ∈ d := by
  induction entries generalizing d with
  | nil => exact .inr h
  | cons f rest ih =>
    rcases ih h with h | h
    · exact .inl (List.mem_cons_of_mem _ h)
    · rcases mem_insert h with h | h
      · exact .inl (h ▸ List.mem_cons_self)
      · exact .inr h

theorem mem_ofList {entries : Dict α} {e : String × α} (h : e ∈ ofList entries) : e ∈ entries := by
  rcases mem_insertAll h with h | h
  · exact h
  · cases h

theorem mem_keys_insertAll {d entries : Dict α} {k : String} :
    k ∈ (insertAll d entries).keys ↔ k ∈ entries.keys ∨ k ∈ d.keys := by
  induction entries generalizing d with
  | nil => simp [insertAll, keys]
  | cons e rest ih =>
    have step : insertAll d (e :: rest) = insertAll (insert e.1 e.2 d) rest := rfl
    have cons : keys (e :: rest) = e.1 :: keys rest := rfl
    rw [step, ih, mem_keys_insert, cons, List.mem_cons, or_assoc, or_left_comm]

theorem lookup_insertAll (d entries : Dict α) (k : String) :
    (insertAll d entries).lookup k = (List.lookup k entries.reverse).or (d.lookup k) := by
  induction entries generalizing d with
  | nil => rfl
  | cons e rest ih =>
    have step : insertAll d (e :: rest) = insertAll (insert e.1 e.2 d) rest := rfl
    rw [step, ih, lookup_insert, List.reverse_cons, List.lookup_append, Option.or_assoc]
    congr 1
    obtain ⟨l, v⟩ := e
    by_cases same : k = l
    · rw [if_pos same, same, lookup_cons_self, Option.some_or]
    · rw [if_neg same, lookup_cons_of_ne same]
      rfl

theorem lookup_reverse {d : Dict α} (sorted : d.Sorted) (k : String) :
    List.lookup k d.reverse = d.lookup k := by
  have whole := lookup_insertAll [] d k
  rw [show insertAll [] d = d from ofList_of_sorted sorted] at whole
  simpa using whole.symm

/-- Of several maps put together, the last that has the key gives the value. -/
theorem lookup_ofList_flatMap {entries : β → Dict α} {bs : List β}
    (sorted : ∀ b ∈ bs, (entries b).Sorted) (k : String) :
    (ofList (bs.flatMap entries)).lookup k =
      bs.reverse.findSome? fun b => (entries b).lookup k := by
  rw [ofList, lookup_insertAll]
  simp only [List.lookup_nil, Option.or_none]
  induction bs with
  | nil => rfl
  | cons b bs ih =>
    obtain ⟨here, behind⟩ := List.forall_mem_cons.1 sorted
    rw [List.flatMap_cons, List.reverse_append, List.lookup_append, ih behind, lookup_reverse here,
      List.reverse_cons, List.findSome?_append]
    simp

end MarkedValues.Dict
