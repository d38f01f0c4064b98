import MarkedValues.Proofs.Value.SetAlgebra

/-!
What becomes of elements that are not known at every depth when a set is built. One that is unknown
itself is never merged. One that is known, with an unknown inside, is merged like any other with an
equal neighbour, although the two may still turn out to be different values.
-/
namespace MarkedValues.Value

def unknownCount (vs : List Value) : Nat := vs.countP isUnknown

def openCount (vs : List Value) : Nat := vs.countP fun v => !v.isWhollyKnown

/-- The second value has something unknown inside and merges into the first. -/
def MergesOpen (u v : Value) : Prop :=
  v.isWhollyKnown = false ∧ (v.isKnown && v.same u) = true

theorem unknownCount_append (xs ys : List Value) :
    unknownCount (xs ++ ys) = unknownCount xs + unknownCount ys :=
  List.countP_append

theorem openCount_append (xs ys : List Value) :
    openCount (xs ++ ys) = openCount xs + openCount ys :=
  List.countP_append

theorem unknownCount_erase (vs : List Value) : unknownCount (vs.map erase) = unknownCount vs := by
  simp only [unknownCount, List.countP_map, Function.comp_def, isUnknown_erase]

theorem openCount_erase (vs : List Value) : openCount (vs.map erase) = openCount vs := by
  simp only [openCount, List.countP_map, Function.comp_def, Completes.isWhollyKnown_erase]

theorem unknownCount_filter (vs : List Value) :
    unknownCount (vs.filter (!merges ·)) = unknownCount vs := by
  rw [unknownCount, List.countP_filter]
  refine List.countP_congr fun v _ => ?_
  cases h : v.isUnknown <;> simp [merges, isKnown, h]

/-- No unknown is ever merged. -/
theorem unknownCount_normalize (vs : List Value) : unknownCount (normalize vs) = unknownCount vs := by
  rw [← unknownCount_filter, ← unknownCount_filter vs]
  exact (filter_normalize vs).countP_eq isUnknown

theorem isWhollyKnown_congr {u v : Value} (h : u.same v = true) :
    u.isWhollyKnown = v.isWhollyKnown := by
  rw [Bool.eq_iff_iff]
  exact ⟨isWhollyKnown_of_same (same_symm h), isWhollyKnown_of_same h⟩

theorem MergesOpen.symm {u v : Value} (h : MergesOpen u v) : MergesOpen v u := by
  obtain ⟨partly, merges⟩ := h
  obtain ⟨known, same⟩ := Bool.and_eq_true_iff.1 merges
  refine ⟨(isWhollyKnown_congr same).symm.trans partly, Bool.and_eq_true_iff.2 ⟨?_, same_symm same⟩⟩
  rw [← isKnown_of_same same, known]

/-- What merges into a value merges into what the value is the same as. -/
theorem mergesOpen_congr {u v w : Value} (h : u.same v = true) :
    MergesOpen u w ↔ MergesOpen v w := by
  refine and_congr_right fun _ => ?_
  rw [Bool.and_eq_true, Bool.and_eq_true]
  refine and_congr_right fun _ => ⟨fun same => same_trans same h, fun same => ?_⟩
  exact same_trans same (same_symm h)

theorem isChain_congr {u v : Value} {ws : List Value} (h : u.same v = true) :
    (u :: ws).IsChain (fun a b => ¬ MergesOpen a b) ↔
      (v :: ws).IsChain fun a b => ¬ MergesOpen a b := by
  cases ws with
  | nil => exact iff_of_true (.singleton u) (.singleton v)
  | cons w ws => rw [List.isChain_cons_cons, List.isChain_cons_cons, mergesOpen_congr h]

theorem openCount_dropRepeats_le (last : Value) (vs : List Value) :
    openCount (dropRepeats last vs) ≤ openCount vs :=
  (dropRepeats_sublist last vs).countP_le

theorem openCount_dropRepeats_iff {last : Value} {vs : List Value} :
    openCount (dropRepeats last vs) = openCount vs ↔
      (last :: vs).IsChain fun u v => ¬ MergesOpen u v := by
  induction vs generalizing last with
  | nil => exact iff_of_true rfl (.singleton last)
  | cons v vs ih =>
    rw [List.isChain_cons_cons, dropRepeats]
    by_cases merges : (v.isKnown && v.same last) = true
    · have same : v.same last = true := (Bool.and_eq_true_iff.1 merges).2
      have count : openCount (v :: vs) = openCount vs + if v.isWhollyKnown then 0 else 1 := by
        cases h : v.isWhollyKnown <;> simp [openCount, h]
      -- The value is dropped, and the one before it stands in for it against what follows.
      rw [if_pos merges, count, isChain_congr same, ← ih]
      cases whole : v.isWhollyKnown with
      | true => simp [MergesOpen, whole]
      | false =>
        have fewer := openCount_dropRepeats_le last vs
        refine iff_of_false ?_ fun h => h.1 ⟨whole, merges⟩
        simp only [Bool.false_eq_true, if_false]
        omega
    · have kept : ¬ MergesOpen last v := fun h => merges h.2
      rw [if_neg merges, iff_true_intro kept, true_and, ← ih, openCount, openCount, List.countP_cons,
        List.countP_cons, Nat.add_right_cancel_iff]
      exact Iff.rfl

/-- In canonical order no value with something unknown inside merges into the one before it. -/
def OpenApart (vs : List Value) : Prop := (sort vs).IsChain fun u v => ¬ MergesOpen u v

theorem openCount_normalize_iff {vs : List Value} :
    openCount (normalize vs) = openCount vs ↔ OpenApart vs := by
  have sorted : openCount (sort vs) = openCount vs := (perm_sort vs).countP_eq _
  unfold normalize OpenApart
  rw [← sorted]
  cases sort vs with
  | nil => exact iff_of_true rfl .nil
  | cons u us =>
    rw [mergeRuns, ← openCount_dropRepeats_iff, openCount, openCount, List.countP_cons,
      List.countP_cons, Nat.add_right_cancel_iff]
    exact Iff.rfl

/-- Values of which no two merge stay apart wherever the order puts them. -/
theorem openApart_of_pairwise {vs : List Value} (h : vs.Pairwise fun u v => ¬ MergesOpen u v) :
    OpenApart vs :=
  ((perm_sort vs).symm.pairwise h fun apart merges => apart merges.symm).isChain

/-- Building a set and uniting sets keep every unknown. They keep every element that is not known at
    every depth exactly if none of them that is known itself merges into the one before it in
    canonical order; so they do wherever no two of them are the same. -/
theorem open_elements_kept_iff (e : Ty) (xs ys : List Value) :
    (unknownCount (set e xs).elements = unknownCount xs ∧
        (openCount (set e xs).elements = openCount xs ↔ OpenApart (xs.map erase))) ∧
      (unknownCount (union xs ys) = unknownCount xs + unknownCount ys ∧
        (openCount (union xs ys) = openCount xs + openCount ys ↔ OpenApart (xs ++ ys))) ∧
      ∀ vs : List Value, (vs.Pairwise fun u v => ¬ MergesOpen u v) → OpenApart vs := by
  have content : (set e xs).elements = normalize (xs.map erase) := rfl
  refine ⟨⟨?_, ?_⟩, ⟨?_, ?_⟩, fun vs => openApart_of_pairwise⟩
  · rw [content, unknownCount_normalize, unknownCount_erase]
  · rw [content, ← openCount_erase xs]
    exact openCount_normalize_iff
  · rw [union, unknownCount_normalize, unknownCount_append]
  · rw [← openCount_append]
    exact openCount_normalize_iff

def openRow : Value := tuple [unknownOf .string]

/-- Two such rows merge, though the cells may turn out to differ; rows of
    different unknowns do not. -/
theorem openRows_merge :
    openCount (set (.tuple [.string]) [openRow, openRow]).elements = 1 ∧
      openCount [openRow, openRow] = 2 ∧ ¬ OpenApart [openRow, openRow] ∧
      openCount (union [openRow] [tuple [(unknownOf .string).refineNotNull]]) = 2 := by
  obtain ⟨⟨_, merged⟩, _, _⟩ := open_elements_kept_iff (.tuple [.string]) [openRow, openRow] []
  obtain ⟨_, ⟨_, united⟩, apart⟩ := open_elements_kept_iff (.tuple [.string]) [openRow]
    [tuple [(unknownOf .string).refineNotNull]]
  refine ⟨rfl, rfl, fun h => ?_, united.2 (apart _ ?_)⟩
  · exact absurd (merged.2 h) (by decide)
  · refine List.pairwise_pair.2 fun merges => ?_
    exact absurd merges.2 (by decide)

end MarkedValues.Value
