import Mathlib.Algebra.Ring.Parity
import MarkedValues.Proofs.Value.Distinct

/-!
Set algebra on content. Every operation decides about the members of its result by the members of
its operands, whatever the elements are. Which element stands for its equals, and how often one
occurs that equals nothing, shows in the content only: it does not depend on the order of the
elements unless refinements tell some of them apart, and not on how unions are bracketed unless the
sign of zeros does.
-/
namespace MarkedValues.Value

theorem memberOf_eq_true {vs : List Value} {x : Value} :
    memberOf vs x = true ↔ x.isKnown = true ∧ ∃ v ∈ vs, v.same x = true := by
  simp [memberOf]

theorem isKnown_of_same {x y : Value} (h : x.same y = true) : x.isKnown = y.isKnown := by
  cases same_iff.1 h <;> rfl

theorem memberOf_congr {vs : List Value} {x y : Value} (h : x.same y = true) :
    memberOf vs x = memberOf vs y := by
  rw [Bool.eq_iff_iff, memberOf_eq_true, memberOf_eq_true, isKnown_of_same h]
  refine and_congr_right fun _ => exists_congr fun v => and_congr_right fun _ => ?_
  exact ⟨fun hv => same_trans hv h, fun hv => same_trans hv (same_symm h)⟩

theorem memberOf_append (xs ys : List Value) (x : Value) :
    memberOf (xs ++ ys) x = (memberOf xs x || memberOf ys x) := by
  simp [memberOf, Bool.and_or_distrib_left]

/-- Neither order nor repetition matters to membership. -/
theorem memberOf_normalize (vs : List Value) (x : Value) :
    memberOf (normalize vs) x = memberOf vs x := by
  rw [Bool.eq_iff_iff, memberOf_eq_true, memberOf_eq_true]
  refine and_congr_right fun _ => ⟨?_, ?_⟩
  · rintro ⟨v, hv, same⟩
    exact ⟨v, mem_normalize hv, same⟩
  -- An element that was merged into another is the same as that one.
  · rintro ⟨v, hv, same⟩
    rcases standsIn_normalize hv with kept | ⟨_, w, hw, merged⟩
    · exact ⟨v, kept, same⟩
    · exact ⟨w, hw, same_trans (same_symm merged) same⟩

theorem memberOf_filter {p : Value → Bool} (congr : ∀ v w, v.same w = true → p v = p w)
    (vs : List Value) (x : Value) : memberOf (vs.filter p) x = (memberOf vs x && p x) := by
  rw [Bool.eq_iff_iff, Bool.and_eq_true, memberOf_eq_true, memberOf_eq_true]
  constructor
  · rintro ⟨known, v, hv, same⟩
    obtain ⟨mem, picked⟩ := List.mem_filter.1 hv
    exact ⟨⟨known, v, mem, same⟩, congr v x same ▸ picked⟩
  · rintro ⟨⟨known, v, hv, same⟩, picked⟩
    exact ⟨known, v, List.mem_filter.2 ⟨hv, (congr v x same).trans picked⟩, same⟩

theorem memberOf_union (xs ys : List Value) (x : Value) :
    memberOf (union xs ys) x = (memberOf xs x || memberOf ys x) := by
  rw [union, memberOf_normalize, memberOf_append]

theorem memberOf_intersection (xs ys : List Value) (x : Value) :
    memberOf (intersection xs ys) x = (memberOf xs x && memberOf ys x) :=
  memberOf_filter (fun _ _ same => memberOf_congr same) xs x

theorem memberOf_subtract (xs ys : List Value) (x : Value) :
    memberOf (subtract xs ys) x = (memberOf xs x && !memberOf ys x) :=
  memberOf_filter (fun _ _ same => congrArg _ (memberOf_congr same)) xs x

theorem memberOf_symmetricDifference (xs ys : List Value) (x : Value) :
    memberOf (symmetricDifference xs ys) x = (memberOf xs x ^^ memberOf ys x) := by
  rw [symmetricDifference, memberOf_normalize, memberOf_append, memberOf_subtract,
    memberOf_subtract]
  cases memberOf xs x <;> cases memberOf ys x <;> rfl

section

variable (first : List Value) (rest : List (List Value)) (x : Value)

theorem memberOf_foldl_union :
    memberOf (rest.foldl union first) x = (first :: rest).any (memberOf · x) := by
  induction rest generalizing first with
  | nil => exact (Bool.or_false _).symm
  | cons next rest ih =>
    rw [List.foldl_cons, ih, List.any_cons, memberOf_union, Bool.or_assoc]
    rfl

theorem memberOf_foldl_intersection :
    memberOf (rest.foldl intersection first) x = (first :: rest).all (memberOf · x) := by
  induction rest generalizing first with
  | nil => exact (Bool.and_true _).symm
  | cons next rest ih =>
    rw [List.foldl_cons, ih, List.all_cons, memberOf_intersection, Bool.and_assoc]
    rfl

theorem memberOf_foldl_subtract :
    memberOf (rest.foldl subtract first) x = (memberOf first x && rest.all (!memberOf · x)) := by
  induction rest generalizing first with
  | nil => exact (Bool.and_true _).symm
  | cons next rest ih =>
    rw [List.foldl_cons, ih, memberOf_subtract, Bool.and_assoc]
    rfl

theorem memberOf_foldl_symmetricDifference :
    memberOf (rest.foldl symmetricDifference first) x = true ↔
      Odd ((first :: rest).countP (memberOf · x)) := by
  induction rest generalizing first with
  | nil => cases h : memberOf first x <;> simp [h]
  | cons next rest ih =>
    rw [List.foldl_cons, ih, List.countP_cons, List.countP_cons, List.countP_cons,
      memberOf_symmetricDifference, Nat.odd_iff, Nat.odd_iff]
    cases memberOf first x with
    | false => cases memberOf next x <;> exact Iff.rfl
    | true =>
      cases memberOf next x with
      | false => exact Iff.rfl
      | true =>
        -- A member of both counts twice, and is not in their difference.
        simp only [bne_self_eq_false, Bool.false_eq_true, if_true, if_false]
        omega

end

/-- Repeats of the value merge. -/
def merges (v : Value) : Bool := v.isKnown && v.same v

theorem merges_iff {v : Value} : merges v = true ↔ v.isKnown = true ∧ v.same v = true :=
  Bool.and_eq_true_iff

def TiesAgree (vs : List Value) : Prop := ∀ v ∈ vs, ∀ w ∈ vs, order v w = .eq → v = w

/-- No two of the values differ only in what their unknowns say about null. -/
def RefinementsAgree (vs : List Value) : Prop :=
  ∀ v ∈ vs, ∀ w ∈ vs, v.unrefined = w.unrefined → v = w

/-- No two of the values differ only in the sign of zeros. -/
def ZerosAgree (vs : List Value) : Prop := ∀ v ∈ vs, ∀ w ∈ vs, v.same w = true → v = w

theorem tiesAgree_iff {vs : List Value} (unmarked : ∀ v ∈ vs, v.Unmarked) :
    TiesAgree vs ↔ RefinementsAgree vs :=
  forall₂_congr fun v hv => forall₂_congr fun w hw => by
    rw [order_eq_iff_unrefined (unmarked v hv) (unmarked w hw)]

theorem refinementsAgree_of_isWhollyKnown {vs : List Value}
    (whole : ∀ v ∈ vs, v.isWhollyKnown = true) : RefinementsAgree vs := by
  intro v hv w hw same
  rwa [unrefined_of_isWhollyKnown (whole v hv), unrefined_of_isWhollyKnown (whole w hw)] at same

theorem TiesAgree.subset {vs ws : List Value} (h : TiesAgree vs) (sub : ws ⊆ vs) : TiesAgree ws :=
  fun v hv w hw => h v (sub hv) w (sub hw)

theorem ZerosAgree.subset {vs ws : List Value} (h : ZerosAgree vs) (sub : ws ⊆ vs) :
    ZerosAgree ws :=
  fun v hv w hw => h v (sub hv) w (sub hw)

theorem normalize_of_perm {xs ys : List Value} (perm : xs.Perm ys) (ties : TiesAgree xs) :
    normalize xs = normalize ys := by
  have sorted : sort xs = sort ys := by
    refine eq_of_perm_of_sorted ((perm_sort xs).trans (perm.trans (perm_sort ys).symm))
      (pairwise_sort xs) (pairwise_sort ys) ?_
    exact ties.subset fun v hv => perm.mem_iff.2 ((perm_sort ys).mem_iff.1 hv)
  exact congrArg mergeRuns sorted

/-- Unknowns that differ in what they say about null stay in the order they came in. -/
example : (set .string [unknownOf .string, (unknownOf .string).refineNotNull]).elements =
      [unknownOf .string, (unknownOf .string).refineNotNull] ∧
    (set .string [(unknownOf .string).refineNotNull, unknownOf .string]).elements =
      [(unknownOf .string).refineNotNull, unknownOf .string] := ⟨rfl, rfl⟩

theorem filter_dropRepeats (last : Value) (vs : List Value) :
    (dropRepeats last vs).filter (!merges ·) = vs.filter (!merges ·) := by
  induction vs generalizing last with
  | nil => rfl
  | cons v vs ih =>
    rw [dropRepeats]
    split
    · next dropped =>
      rw [Bool.and_eq_true] at dropped
      have merged : merges v = true := merges_iff.2 ⟨dropped.1, same_left dropped.2⟩
      rw [ih last, List.filter_cons_of_neg (by simp [merged])]
    · rw [List.filter_cons, List.filter_cons, ih v]

theorem filter_normalize (vs : List Value) :
    ((normalize vs).filter (!merges ·)).Perm (vs.filter (!merges ·)) := by
  refine List.Perm.trans (.of_eq ?_) ((perm_sort vs).filter _)
  unfold normalize
  cases sort vs with
  | nil => rfl
  | cons v vs => rw [mergeRuns, List.filter_cons, List.filter_cons, filter_dropRepeats]

theorem nodup_normalize {vs : List Value} (ties : TiesAgree vs) :
    ((normalize vs).filter merges).Nodup := by
  have once : (normalize vs).Pairwise fun u v => merges v = true → u ≠ v := by
    refine (repeats_normalize vs).imp_of_mem fun {u v} _ hv repeats merged same => ?_
    have kept : merges v = false := repeats same fun w hw =>
      ties w (mem_normalize hw) v (mem_normalize hv)
    rw [merged] at kept
    cases kept
  exact (once.sublist List.filter_sublist).imp_of_mem fun _ hv apart =>
    apart (List.mem_filter.1 hv).2

theorem mem_normalize_iff {vs : List Value} (zeros : ZerosAgree vs) {v : Value} :
    v ∈ normalize vs ↔ v ∈ vs := by
  refine ⟨mem_normalize, fun hv => ?_⟩
  rcases standsIn_normalize hv with kept | ⟨_, w, hw, same⟩
  · exact kept
  · exact zeros v hv w (mem_normalize hw) same ▸ hw

/-- What a union has been normalized to stands for what it was made of. -/
theorem normalize_append_normalize {xs ys : List Value} (ties : TiesAgree (xs ++ ys))
    (zeros : ZerosAgree (xs ++ ys)) : normalize (xs ++ normalize ys) = normalize (xs ++ ys) := by
  have sub : xs ++ normalize ys ⊆ xs ++ ys :=
    List.append_subset.2 ⟨List.subset_append_left xs ys,
      fun v hv => List.mem_append_right xs (mem_normalize hv)⟩
  have zerosRight : ZerosAgree ys := zeros.subset (List.subset_append_right xs ys)
  have members : ∀ v, v ∈ xs ++ normalize ys ↔ v ∈ xs ++ ys := fun v => by
    rw [List.mem_append, List.mem_append, mem_normalize_iff zerosRight]
  -- Both sides are compared by what merges, of which only membership counts, and by what does
  -- not, of which every occurrence is kept.
  have merging : ((normalize (xs ++ normalize ys)).filter merges).Perm
      ((normalize (xs ++ ys)).filter merges) := by
    rw [List.perm_ext_iff_of_nodup (nodup_normalize (ties.subset sub)) (nodup_normalize ties)]
    intro v
    rw [List.mem_filter, List.mem_filter, mem_normalize_iff (zeros.subset sub),
      mem_normalize_iff zeros, members]
  have single : ((normalize (xs ++ normalize ys)).filter (!merges ·)).Perm
      ((normalize (xs ++ ys)).filter (!merges ·)) := by
    refine (filter_normalize _).trans (List.Perm.trans ?_ (filter_normalize _).symm)
    rw [List.filter_append, List.filter_append]
    exact (filter_normalize ys).append_left _
  have perm : (normalize (xs ++ normalize ys)).Perm (normalize (xs ++ ys)) :=
    (List.filter_append_perm merges _).symm.trans
      ((merging.append single).trans (List.filter_append_perm merges _))
  exact eq_of_perm_of_sorted perm (pairwise_normalize _) (pairwise_normalize _)
    (ties.subset fun v hv => mem_normalize hv)

theorem union_comm {xs ys : List Value} (ties : TiesAgree (xs ++ ys)) : union xs ys = union ys xs :=
  normalize_of_perm List.perm_append_comm ties

theorem union_assoc {xs ys zs : List Value} (ties : TiesAgree (xs ++ ys ++ zs))
    (zeros : ZerosAgree (xs ++ ys ++ zs)) : union (union xs ys) zs = union xs (union ys zs) := by
  have bracketed : union xs ys ++ zs ⊆ xs ++ ys ++ zs := List.append_subset.2
    ⟨fun v hv => List.mem_append_left zs (mem_normalize hv), List.subset_append_right _ zs⟩
  have rotated : zs ++ (xs ++ ys) ⊆ xs ++ ys ++ zs := List.perm_append_comm.subset
  have same : xs ++ (ys ++ zs) ⊆ xs ++ ys ++ zs := by rw [List.append_assoc]; exact List.Subset.refl _
  calc normalize (union xs ys ++ zs)
      = normalize (zs ++ union xs ys) :=
        normalize_of_perm List.perm_append_comm (ties.subset bracketed)
    _ = normalize (zs ++ (xs ++ ys)) :=
        normalize_append_normalize (ties.subset rotated) (zeros.subset rotated)
    _ = normalize (xs ++ ys ++ zs) :=
        normalize_of_perm List.perm_append_comm (ties.subset rotated)
    _ = normalize (xs ++ (ys ++ zs)) := by rw [List.append_assoc]
    _ = normalize (xs ++ union ys zs) :=
        (normalize_append_normalize (ties.subset same) (zeros.subset same)).symm

/-- Where zeros differ in sign it depends on the brackets whether equal rows meet. -/
example :
    union (union [tuple [number .negativeZero, bool false]] [tuple [number .zero, bool false]])
        [tuple [number .negativeZero, bool true]] =
      [tuple [number .negativeZero, bool false], tuple [number .negativeZero, bool true]] ∧
    union [tuple [number .negativeZero, bool false]]
        (union [tuple [number .zero, bool false]] [tuple [number .negativeZero, bool true]]) =
      [tuple [number .negativeZero, bool false], tuple [number .negativeZero, bool true],
        tuple [number .zero, bool false]] := ⟨rfl, rfl⟩

theorem below_self (v : Value) : Below v v := by
  have tied : order v v = .eq := Std.ReflCmp.compare_self
  rw [Below, tied]
  rfl

theorem merges_of_isWhollyKnown {v : Value} (whole : v.isWhollyKnown = true) :
    merges v = !v.holdsNaN := by
  rw [merges, isKnown, Completes.isUnknown_of_isWhollyKnown whole, Bool.not_false, Bool.true_and,
    same_self]

def doubled (vs : List Value) : List Value := vs.flatMap fun v => [v, v]

theorem doubled_cons (v : Value) (vs : List Value) : doubled (v :: vs) = v :: v :: doubled vs := rfl

theorem mem_doubled {v : Value} {vs : List Value} : v ∈ doubled vs ↔ v ∈ vs := by
  simp [doubled]

theorem pairwise_doubled {vs : List Value} (sorted : vs.Pairwise Below) :
    (doubled vs).Pairwise Below := by
  induction sorted with
  | nil => exact .nil
  | @cons v vs first _ ih =>
    have later : ∀ w ∈ doubled vs, Below v w := fun w hw => first w (mem_doubled.1 hw)
    rw [doubled_cons]
    exact .cons (List.forall_mem_cons.2 ⟨below_self v, later⟩) (.cons later ih)

theorem perm_doubled (vs : List Value) : (vs ++ vs).Perm (doubled vs) := by
  induction vs with
  | nil => exact .refl _
  | cons v vs ih => exact (List.perm_middle.trans (ih.cons v)).cons v

theorem length_dropRepeats_self (v : Value) (vs : List Value) :
    (dropRepeats v (v :: vs)).length = (dropRepeats v vs).length + if !merges v then 1 else 0 := by
  rw [dropRepeats]
  by_cases merged : merges v = true
  · have here : (v.isKnown && v.same v) = true := merged
    rw [if_pos here, if_neg (by simp [merged]), Nat.add_zero]
  · have here : ¬ (v.isKnown && v.same v) = true := merged
    rw [if_neg here, if_pos (by simp [merged]), List.length_cons]

theorem length_dropRepeats_doubled {v : Value} {vs : List Value}
    (chain : (v :: vs).IsChain KeptBehind) :
    (dropRepeats v (v :: doubled vs)).length = vs.length + (v :: vs).countP (!merges ·) := by
  induction vs generalizing v with
  | nil =>
    rw [List.countP_cons, List.countP_nil, Nat.zero_add]
    exact length_dropRepeats_self v []
  | cons w ws ih =>
    obtain ⟨kept, later⟩ := List.isChain_cons_cons.1 chain
    have apart : ¬ (w.isKnown && w.same v) = true := Bool.eq_false_iff.1 kept
    rw [length_dropRepeats_self, doubled_cons, dropRepeats, if_neg apart, List.length_cons,
      ih later, List.length_cons, List.countP_cons (a := v)]
    omega

section

variable {vs : List Value} (content : SetContent vs)

theorem memberOf_self {v : Value} (hv : v ∈ vs) : memberOf vs v = merges v := by
  rw [Bool.eq_iff_iff, memberOf_eq_true, merges_iff]
  refine and_congr_right fun _ => ⟨?_, fun same => ⟨v, hv, same⟩⟩
  rintro ⟨w, _, same⟩
  exact same_right same

theorem subtract_self (vs : List Value) : subtract vs vs = vs.filter (!merges ·) :=
  List.filter_congr fun _ hv => congrArg _ (memberOf_self hv)

theorem intersection_self (vs : List Value) : intersection vs vs = vs.filter merges :=
  List.filter_congr fun _ hv => memberOf_self hv

theorem length_normalize_le (vs : List Value) : (normalize vs).length ≤ vs.length :=
  (mergeRuns_sublist (sort vs)).length_le.trans_eq (perm_sort vs).length_eq

/-- Nothing is merged if in canonical order each value is kept behind the one before it. -/
theorem length_normalize_eq_iff :
    (normalize vs).length = vs.length ↔ (sort vs).IsChain KeptBehind := by
  rw [← (perm_sort vs).length_eq, normalize]
  constructor
  · intro all
    rw [← (mergeRuns_sublist (sort vs)).eq_of_length all]
    cases sort vs with
    | nil => exact .nil
    | cons v vs => exact isChain_dropRepeats v vs
  · intro chain
    generalize sort vs = sorted at chain ⊢
    cases sorted with
    | nil => rfl
    | cons v vs => rw [mergeRuns, dropRepeats_of_isChain chain]

theorem perm_normalize (single : ∀ v ∈ vs, merges v = false) : (normalize vs).Perm vs := by
  have kept := filter_normalize vs
  rwa [List.filter_eq_self.2 fun v hv => by simp [single v (mem_normalize hv)],
    List.filter_eq_self.2 fun v hv => by simp [single v hv]] at kept

theorem merges_of_mem_subtract_self {v : Value} (hv : v ∈ subtract vs vs) : merges v = false := by
  rw [subtract_self] at hv
  simpa using (List.mem_filter.1 hv).2

theorem length_subtract_self (vs : List Value) :
    (normalize (subtract vs vs)).length = vs.countP (!merges ·) := by
  rw [(perm_normalize fun _ => merges_of_mem_subtract_self).length_eq, subtract_self,
    List.countP_eq_length_filter]

theorem length_symmetricDifference_self (vs : List Value) :
    (normalize (symmetricDifference vs vs)).length = 2 * vs.countP (!merges ·) := by
  have single : ∀ v ∈ subtract vs vs ++ subtract vs vs, merges v = false := fun v hv =>
    (List.mem_append.1 hv).elim merges_of_mem_subtract_self merges_of_mem_subtract_self
  rw [symmetricDifference, normalize_normalize, (perm_normalize single).length_eq,
    List.length_append, subtract_self, ← List.countP_eq_length_filter, Nat.two_mul]

theorem length_intersection_self_le (vs : List Value) :
    (normalize (intersection vs vs)).length + vs.countP (!merges ·) ≤ vs.length := by
  have both := List.length_eq_countP_add_countP merges (l := vs)
  simp only [decide_not, Bool.decide_eq_true, List.countP_eq_length_filter (p := merges)] at both
  rw [intersection_self, both]
  exact Nat.add_le_add_right (length_normalize_le _) _

include content

theorem intersection_self_of_merges (all : vs.countP (!merges ·) = 0) :
    normalize (intersection vs vs) = vs := by
  have merge : ∀ v ∈ vs, merges v = true := by simpa [List.countP_eq_zero] using all
  rw [intersection_self, List.filter_eq_self.2 merge, content.normal]

theorem length_union_self (ties : TiesAgree vs) :
    (normalize (union vs vs)).length = vs.length + vs.countP (!merges ·) := by
  have sorted : sort (vs ++ vs) = doubled vs :=
    eq_of_perm_of_sorted ((perm_sort _).trans (perm_doubled vs)) (pairwise_sort _)
      (pairwise_doubled content.pairwise) (ties.subset fun v hv => mem_doubled.1 hv)
  rw [union, normalize_normalize, normalize, sorted]
  have chain := content.isChain
  cases vs with
  | nil => rfl
  | cons v vs =>
    rw [doubled_cons, mergeRuns, List.length_cons, length_dropRepeats_doubled chain,
      List.length_cons]
    omega

end

end MarkedValues.Value
