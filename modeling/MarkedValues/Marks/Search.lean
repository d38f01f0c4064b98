/-!
Looking for a name in an ascending list by halving. The search says where the name stands or, when
it is missing, where it belongs; a name is put in and taken out at the place that the search
reports. The laws of all three hold of ascending lists only, and both edits keep a list ascending.
-/
namespace MarkedValues.Names

/-- Where a name stands in an ascending list, or where it belongs. -/
inductive Place where
  | found (i : Nat)
  | missing (i : Nat)

/-- Halves a stretch of `size` names from `base` on until one is left. When the name in
    the middle is above `m`, the later half is given up, otherwise the earlier one;
    `rounds` bounds the halvings. -/
def narrow (names : List String) (m : String) : (rounds base size : Nat) → Nat
  | 0, base, _ => base
  | rounds + 1, base, size =>
    if size ≤ 1 then base
    else
      let half := size / 2
      narrow names m rounds (if names[base + half]?.any (m < ·) then base else base + half)
        (size - half)

def search (names : List String) (m : String) : Place :=
  let i := narrow names m names.length 0 names.length
  match names[i]? with
  | none => .missing 0
  | some x => if x = m then .found i else .missing (if x < m then i + 1 else i)

def contains (names : List String) (m : String) : Bool :=
  match search names m with
  | .found _ => true
  | .missing _ => false

def insert (names : List String) (m : String) : Bool × List String :=
  match search names m with
  | .found _ => (false, names)
  | .missing i => (true, names.insertIdx i m)

def remove (names : List String) (m : String) : Bool × List String :=
  match search names m with
  | .found i => (true, names.eraseIdx i)
  | .missing _ => (false, names)

theorem ascending_iff {names : List String} : names.Pairwise (· < ·) ↔
    ∀ (i j : Nat) (x y : String), names[i]? = some x → names[j]? = some y → i < j → x < y := by
  rw [List.pairwise_iff_getElem]
  constructor
  · intro h i j x y hx hy less
    obtain ⟨hi, rfl⟩ := List.getElem?_eq_some_iff.1 hx
    obtain ⟨hj, rfl⟩ := List.getElem?_eq_some_iff.1 hy
    exact h i j hi hj less
  · intro h i j hi hj less
    exact h i j _ _ (List.getElem?_eq_getElem hi) (List.getElem?_eq_getElem hj) less

/-- Names before the stretch of `size` names from `base` on are below `m`, names behind it above. -/
structure Within (names : List String) (m : String) (base size : Nat) : Prop where
  nonempty : 0 < size
  room : base + size ≤ names.length
  below : ∀ (i : Nat) (x : String), names[i]? = some x → i < base → x < m
  above : ∀ (i : Nat) (x : String), names[i]? = some x → base + size ≤ i → m < x

/-- The name may stand before the one at `i`, and nowhere else. -/
structure Gap (names : List String) (m : String) (i : Nat) : Prop where
  room : i ≤ names.length
  below : ∀ (j : Nat) (x : String), names[j]? = some x → j < i → x < m
  above : ∀ (j : Nat) (x : String), names[j]? = some x → i ≤ j → m < x

theorem Gap.not_mem {names : List String} {m : String} {i : Nat} (gap : Gap names m i) :
    m ∉ names := by
  intro mem
  obtain ⟨j, hj⟩ := List.mem_iff_getElem?.1 mem
  rcases Nat.lt_or_ge j i with before | behind
  · exact String.lt_irrefl m (gap.below j m hj before)
  · exact String.lt_irrefl m (gap.above j m hj behind)

section

variable {names : List String} {m x : String} {base size i : Nat}

theorem Within.whole (nonempty : 0 < names.length) : Within names m 0 names.length where
  nonempty := nonempty
  room := Nat.le_of_eq (Nat.zero_add _)
  below := fun i _ _ before => absurd before (Nat.not_lt_zero i)
  above := fun i x hx behind => by
    rw [List.getElem?_eq_none (by omega)] at hx
    cases hx

theorem Within.last (h : Within names m base size) (short : size ≤ 1) : Within names m base 1 :=
  Nat.le_antisymm short h.nonempty ▸ h

theorem Within.gap_before (h : Within names m i 1) (here : names[i]? = some x) (greater : m < x) :
    Gap names m i where
  room := Nat.le_of_lt h.room
  below := h.below
  above := fun j y hy behind => by
    rcases Nat.lt_or_eq_of_le behind with later | rfl
    · exact h.above j y hy later
    · cases here.symm.trans hy
      exact greater

theorem Within.gap_behind (h : Within names m i 1) (here : names[i]? = some x) (less : x < m) :
    Gap names m (i + 1) where
  room := h.room
  below := fun j y hy before => by
    rcases Nat.lt_or_eq_of_le (Nat.le_of_lt_succ before) with earlier | rfl
    · exact h.below j y hy earlier
    · cases here.symm.trans hy
      exact less
  above := h.above

end

section

variable {names : List String} (ascending : names.Pairwise (· < ·)) {m : String}

include ascending

theorem Within.halve {base size : Nat} (h : Within names m base size) (long : 1 < size) :
    Within names m (if names[base + size / 2]?.any (m < ·) then base else base + size / 2)
      (size - size / 2) := by
  have order := ascending_iff.1 ascending
  have room := h.room
  obtain ⟨x, middle⟩ : ∃ x, names[base + size / 2]? = some x :=
    ⟨_, List.getElem?_eq_getElem (by omega)⟩
  rw [middle, Option.any_some]
  by_cases up : m < x
  · rw [if_pos (decide_eq_true up)]
    refine ⟨by omega, by omega, h.below, fun i y hy behind => ?_⟩
    rcases Nat.lt_or_eq_of_le (show base + size / 2 ≤ i by omega) with later | rfl
    · exact String.lt_trans up (order _ _ _ _ middle hy later)
    · cases middle.symm.trans hy
      exact up
  · rw [if_neg (by simpa using up)]
    refine ⟨by omega, by omega, fun i y hy before => ?_, fun i y hy behind => ?_⟩
    · exact Std.lt_of_lt_of_le (order _ _ _ _ hy middle before) (String.not_lt.1 up)
    · exact h.above i y hy (by omega)

theorem within_narrow {rounds base size : Nat} (h : Within names m base size)
    (enough : size ≤ rounds + 1) : Within names m (narrow names m rounds base size) 1 := by
  induction rounds generalizing base size with
  | zero => exact h.last enough
  | succ rounds ih =>
    rw [narrow]
    split
    · next short => exact h.last short
    · next long => exact ih (h.halve ascending (Nat.lt_of_not_le long)) (by omega)

/-- The search finds the name, or the one gap that it fits in. -/
theorem search_cases : (∃ i, search names m = .found i ∧ names[i]? = some m) ∨
    ∃ i, search names m = .missing i ∧ Gap names m i := by
  rcases Nat.eq_zero_or_pos names.length with empty | nonempty
  · cases List.length_eq_zero_iff.1 empty
    have gap : Gap [] m 0 := ⟨Nat.le_refl 0, by simp, by simp⟩
    exact .inr ⟨0, rfl, gap⟩
  · have narrowed := within_narrow ascending (.whole (m := m) nonempty) (Nat.le_succ _)
    rw [search]
    generalize narrow names m names.length 0 names.length = i at narrowed
    obtain ⟨x, here⟩ : ∃ x, names[i]? = some x := ⟨_, List.getElem?_eq_getElem narrowed.room⟩
    simp only [here]
    by_cases same : x = m
    · exact .inl ⟨i, if_pos same, same ▸ here⟩
    · rw [if_neg same]
      by_cases less : x < m
      · rw [if_pos less]
        exact .inr ⟨i + 1, rfl, narrowed.gap_behind here less⟩
      · rw [if_neg less]
        have greater : m < x := Std.lt_of_le_of_ne (String.not_lt.1 less) (Ne.symm same)
        exact .inr ⟨i, rfl, narrowed.gap_before here greater⟩

theorem contains_iff : contains names m = true ↔ m ∈ names := by
  rw [contains]
  obtain ⟨i, place, here⟩ | ⟨i, place, gap⟩ := search_cases ascending (m := m)
  · rw [place]
    exact iff_of_true rfl (List.mem_of_getElem? here)
  · rw [place]
    exact iff_of_false Bool.false_ne_true gap.not_mem

theorem insert_changes : (insert names m).1 = true ↔ m ∉ names := by
  rw [← contains_iff ascending, contains, insert]
  cases search names m <;> simp

theorem remove_changes : (remove names m).1 = true ↔ m ∈ names := by
  rw [← contains_iff ascending, contains, remove]
  cases search names m <;> simp

theorem mem_insert {x : String} : x ∈ (insert names m).2 ↔ x = m ∨ x ∈ names := by
  rw [insert]
  obtain ⟨i, place, here⟩ | ⟨i, place, gap⟩ := search_cases ascending (m := m)
  · rw [place]
    have present : m ∈ names := List.mem_of_getElem? here
    exact (or_iff_right_of_imp fun same => same ▸ present).symm
  · rw [place]
    exact List.mem_insertIdx gap.room

theorem pairwise_insert : (insert names m).2.Pairwise (· < ·) := by
  rw [insert]
  obtain ⟨i, place, _⟩ | ⟨i, place, gap⟩ := search_cases ascending (m := m)
  · rw [place]
    exact ascending
  · rw [place, ascending_iff]
    have order := ascending_iff.1 ascending
    have below := gap.below
    have above := gap.above
    intro j k x y hx hy less
    rw [List.getElem?_insertIdx] at hx hy
    grind

theorem mem_remove {x : String} : x ∈ (remove names m).2 ↔ x ≠ m ∧ x ∈ names := by
  have order := ascending_iff.1 ascending
  rw [remove]
  obtain ⟨i, place, here⟩ | ⟨i, place, gap⟩ := search_cases ascending (m := m)
  · rw [place, List.mem_eraseIdx_iff_getElem?]
    constructor
    · rintro ⟨j, other, hj⟩
      refine ⟨?_, List.mem_of_getElem? hj⟩
      rintro rfl
      rcases Nat.lt_or_gt_of_ne other with before | behind
      · exact String.lt_irrefl x (order _ _ _ _ hj here before)
      · exact String.lt_irrefl x (order _ _ _ _ here hj behind)
    · rintro ⟨differ, mem⟩
      obtain ⟨j, hj⟩ := List.mem_iff_getElem?.1 mem
      refine ⟨j, ?_, hj⟩
      rintro rfl
      exact differ (Option.some.inj (hj.symm.trans here))
  · rw [place]
    exact ⟨fun mem => ⟨fun same => gap.not_mem (same ▸ mem), mem⟩, And.right⟩

theorem pairwise_remove : (remove names m).2.Pairwise (· < ·) := by
  rw [remove]
  cases search names m with
  | found i => exact ascending.eraseIdx i
  | missing i => exact ascending

end

end MarkedValues.Names
