import Mathlib.Data.List.Perm.Subperm
import MarkedValues.Proofs.Value.Sameness
import MarkedValues.Proofs.Value.Ties

/-!
Equality of the domain as a relation. Which value comes first makes no difference, as long as no set
holds one element twice: sets are compared by their sizes and by inclusion one way, and the other
way follows by counting. Values that are both found to be equal to a third are found to be equal.
-/
namespace MarkedValues.Value

open MarkedValues.Lists

/-- No set, at any depth, holds two elements of the same structure. -/
inductive Apart : Value → Prop
  | null {t : Ty} {m : MarkSet} : Apart (.null t m)
  | unknown {t : Ty} {r : Bool} {m : MarkSet} : Apart (.unknown t r m)
  | scalar {s : Scalar} {m : MarkSet} : Apart (.scalar s m)
  | sequence {k : SequenceKind} {es : List Value} {m : MarkSet}
    (content : ∀ e, k = .set e → es.Pairwise fun v w => v.same w = false)
    (parts : ∀ v ∈ es, Apart v) : Apart (.sequence k es m)
  | mapping {k : MappingKind} {es : List (String × Value)} {m : MarkSet}
    (parts : ∀ x ∈ es, Apart x.2) : Apart (.mapping k es m)

/-- As many elements that are apart as there are others, each the same as one of these, leave none
    of the others out. -/
theorem covers_of_length_eq {xs ys : List Value} (apart : xs.Pairwise fun v w => v.same w = false)
    (len : xs.length = ys.length) (covered : ∀ x ∈ xs, ∃ y ∈ ys, y.same x = true) :
    ∀ y ∈ ys, ∃ x ∈ xs, x.same y = true := by
  choose! partner mem same using covered
  -- Two elements with one partner would be the same as each other.
  have nodup : (xs.map partner).Nodup := by
    refine List.pairwise_map.2 (apart.imp_of_mem fun {v w} hv hw differ eq => ?_)
    have merged : v.same w = true := same_trans (same_symm (same v hv)) (eq ▸ same w hw)
    rw [merged] at differ
    cases differ
  have subset : xs.map partner ⊆ ys := by
    intro y hy
    obtain ⟨x, hx, rfl⟩ := List.mem_map.1 hy
    exact mem x hx
  have perm : (xs.map partner).Perm ys := (List.subperm_of_subset nodup subset).perm_of_length_le
    (by simp [len])
  intro y hy
  obtain ⟨x, hx, rfl⟩ := List.mem_map.1 (perm.mem_iff.2 hy)
  exact ⟨x, hx, same_symm (same x hx)⟩

theorem inclusion_comm {xs ys : List Value} (ax : xs.Pairwise fun v w => v.same w = false)
    (ay : ys.Pairwise fun v w => v.same w = false) :
    (xs.length == ys.length && xs.all fun x => ys.any fun y => y.same x) =
      (ys.length == xs.length && ys.all fun y => xs.any fun x => x.same y) := by
  rw [Bool.eq_iff_iff]
  simp only [Bool.and_eq_true, beq_iff_eq, List.all_eq_true, List.any_eq_true]
  constructor
  · rintro ⟨len, covered⟩
    exact ⟨len.symm, covers_of_length_eq ax len covered⟩
  · rintro ⟨len, covered⟩
    exact ⟨len.symm, covers_of_length_eq ay len covered⟩

theorem compareAll_comm {xs ys : List Value}
    (each : ∀ x ∈ xs, ∀ y ∈ ys, x.compareTo y = y.compareTo x) :
    compareAll xs ys = compareAll ys xs := by
  induction xs generalizing ys with
  | nil => cases ys <;> rfl
  | cons x xs ih =>
    cases ys with
    | nil => rfl
    | cons y ys =>
      have rest := ih fun u hu v hv =>
        each u (List.mem_cons_of_mem x hu) v (List.mem_cons_of_mem y hv)
      rw [compareAll, compareAll, each x List.mem_cons_self y List.mem_cons_self, rest]

theorem compareTo_sequence_comm {k l : SequenceKind} {xs ys : List Value} {m n : MarkSet}
    (ax : ∀ e, k = .set e → xs.Pairwise fun v w => v.same w = false)
    (ay : ∀ e, l = .set e → ys.Pairwise fun v w => v.same w = false)
    (each : ∀ x ∈ xs, ∀ y ∈ ys, x.compareTo y = y.compareTo x) :
    compareTo (.sequence k xs m) (.sequence l ys n) =
      compareTo (.sequence l ys n) (.sequence k xs m) := by
  by_cases same : Value.ty (.sequence k xs m) = Value.ty (.sequence l ys n)
  · cases kind_of_ty same
    cases k with
    | set e =>
      rw [compareTo_set same, compareTo_set same.symm, Bool.and_comm,
        inclusion_comm (ax e rfl) (ay e rfl)]
    | list e =>
      rw [compareTo_sequence same nofun, compareTo_sequence same.symm nofun, compareAll_comm each]
    | tuple =>
      rw [compareTo_sequence same nofun, compareTo_sequence same.symm nofun, compareAll_comm each]
  · rw [compareTo_of_ty_ne same, compareTo_of_ty_ne (Ne.symm same)]

theorem compareTo_mapping_comm {k l : MappingKind} {xs ys : List (String × Value)} {m n : MarkSet}
    (each : ∀ x ∈ Dict.values xs, ∀ y ∈ Dict.values ys, x.compareTo y = y.compareTo x) :
    compareTo (.mapping k xs m) (.mapping l ys n) =
      compareTo (.mapping l ys n) (.mapping k xs m) := by
  by_cases same : Value.ty (.mapping k xs m) = Value.ty (.mapping l ys n)
  · by_cases keys : Dict.keys xs = Dict.keys ys
    · rw [compareTo_mapping same keys, compareTo_mapping same.symm keys.symm, compareAll_comm each]
    · rw [compareTo_of_keys_ne keys, compareTo_of_keys_ne (Ne.symm keys)]
  · rw [compareTo_of_mapping_ty_ne same, compareTo_of_mapping_ty_ne (Ne.symm same)]

theorem compareTo_comm {a b : Value} (ha : a.Apart) (hb : b.Apart) :
    a.compareTo b = b.compareTo a := by
  induction a generalizing b with
  | null t m => cases b <;> rfl
  | unknown t r m => cases b <;> rfl
  | scalar s m =>
    cases b with
    | scalar t n =>
      have same : s.same t = t.same s := Bool.eq_iff_iff.2 ⟨Scalar.same_symm, Scalar.same_symm⟩
      rw [compareTo, compareTo, same]
    | _ => rfl
  | sequence k xs m ih =>
    cases b with
    | sequence l ys n =>
      cases ha with
      | sequence ax px =>
        cases hb with
        | sequence ay py =>
          apply compareTo_sequence_comm ax ay
          exact fun x hx y hy => ih x hx (px x hx) (py y hy)
    | _ => rfl
  | mapping k xs m ih =>
    cases b with
    | mapping l ys n =>
      cases ha with
      | mapping px =>
        cases hb with
        | mapping py =>
          apply compareTo_mapping_comm
          refine List.forall_mem_map.2 fun x hx => List.forall_mem_map.2 fun y hy => ?_
          exact ih x hx (px x hx) (py y hy)
    | _ => rfl

theorem shape_of_yes {a b : Value} (h : a.compareTo b = .yes) : a.shape = b.shape := by
  obtain ⟨wa, wb⟩ := isWhollyKnown_of_yes h
  by_contra differ
  rw [compareTo_of_shape_ne (Completes.isUnknown_of_isWhollyKnown wa)
    (Completes.isUnknown_of_isWhollyKnown wb) differ] at h
  cases h

section

variable {k l : SequenceKind} {xs ys : List Value} {m n : MarkSet}

theorem ty_of_sequence_yes (h : compareTo (.sequence k xs m) (.sequence l ys n) = .yes) :
    Value.ty (.sequence k xs m) = Value.ty (.sequence l ys n) := by
  by_contra differ
  rw [compareTo_of_ty_ne differ] at h
  cases h

/-- Sets are found to be equal when they are wholly known, of one size, and each element of the one
    is the same as one of the other. -/
theorem compareTo_set_eq_yes {e : Ty}
    (type : Value.ty (.sequence (.set e) xs m) = Value.ty (.sequence l ys n)) :
    compareTo (.sequence (.set e) xs m) (.sequence l ys n) = .yes ↔
      ((∀ x ∈ xs, x.isWhollyKnown = true) ∧ ∀ y ∈ ys, y.isWhollyKnown = true) ∧
        xs.length = ys.length ∧ ∀ x ∈ xs, ∃ y ∈ ys, y.same x = true := by
  rw [compareTo_set type]
  split
  · next whole =>
    simp only [Bool.and_eq_true, List.all_eq_true] at whole
    simp only [Verdict.ofBool_eq_yes, Bool.and_eq_true, beq_iff_eq, List.all_eq_true,
      List.any_eq_true]
    exact ⟨fun h => ⟨whole, h⟩, And.right⟩
  · next partly =>
    simp only [Bool.and_eq_true, List.all_eq_true] at partly
    simp only [reduceCtorEq, false_iff, not_and]
    exact fun whole => absurd whole partly

end

section

variable {k l : MappingKind} {xs ys : List (String × Value)} {m n : MarkSet}

theorem types_and_keys_of_mapping_yes (h : compareTo (.mapping k xs m) (.mapping l ys n) = .yes) :
    Value.ty (.mapping k xs m) = Value.ty (.mapping l ys n) ∧ Dict.keys xs = Dict.keys ys := by
  constructor
  · by_contra differ
    rw [compareTo_of_mapping_ty_ne differ] at h
    cases h
  · by_contra differ
    rw [compareTo_of_keys_ne differ] at h
    cases h

end

theorem compareAll_trans {xs ys zs : List Value}
    (each : ∀ z ∈ zs, ∀ x y : Value, x.compareTo y = .yes → y.compareTo z = .yes → x.compareTo z = .yes)
    (hxy : compareAll xs ys = .yes) (hyz : compareAll ys zs = .yes) : compareAll xs zs = .yes := by
  rw [compareAll_eq_yes] at hxy hyz ⊢
  exact forall₂_trans each hxy hyz

theorem compareTo_trans {a b c : Value} (hab : a.compareTo b = .yes) (hbc : b.compareTo c = .yes) :
    a.compareTo c = .yes := by
  have ab := shape_of_yes hab
  have bc := shape_of_yes hbc
  induction c generalizing a b with
  | null t m =>
    cases b <;> cases bc
    cases a <;> cases ab
    rfl
  | unknown t r m => cases (isWhollyKnown_of_yes hbc).2
  | scalar s m =>
    cases b <;> cases bc
    cases a <;> cases ab
    rw [compareTo, Verdict.ofBool_eq_yes] at hab hbc ⊢
    exact Scalar.same_trans hab hbc
  | sequence p zs o ih =>
    cases b <;> cases bc
    next l ys n =>
    cases a <;> cases ab
    next k xs m =>
    have first := ty_of_sequence_yes hab
    have second := ty_of_sequence_yes hbc
    have type := first.trans second
    obtain rfl : k = l := kind_of_ty first
    obtain rfl : k = p := kind_of_ty second
    -- Elements of sets are matched by structure and never compared, so the induction is not used.
    by_cases isSet : ∃ e, k = .set e
    · obtain ⟨e, rfl⟩ := isSet
      rw [compareTo_set_eq_yes first] at hab
      rw [compareTo_set_eq_yes second] at hbc
      rw [compareTo_set_eq_yes type]
      obtain ⟨⟨known, _⟩, len, covered⟩ := hab
      obtain ⟨⟨_, known'⟩, len', covered'⟩ := hbc
      refine ⟨⟨known, known'⟩, len.trans len', fun x hx => ?_⟩
      obtain ⟨y, hy, yx⟩ := covered x hx
      obtain ⟨z, hz, zy⟩ := covered' y hy
      exact ⟨z, hz, same_trans zy yx⟩
    · have ordered : ∀ e, k ≠ .set e := fun e he => isSet ⟨e, he⟩
      rw [compareTo_sequence first ordered] at hab
      rw [compareTo_sequence second ordered] at hbc
      rw [compareTo_sequence type ordered]
      exact compareAll_trans (fun z hz x y hxy hyz => ih z hz hxy hyz (shape_of_yes hxy)
        (shape_of_yes hyz)) hab hbc
  | mapping p zs o ih =>
    cases b <;> cases bc
    next l ys n =>
    cases a <;> cases ab
    next k xs m =>
    obtain ⟨first, keys⟩ := types_and_keys_of_mapping_yes hab
    obtain ⟨second, keys'⟩ := types_and_keys_of_mapping_yes hbc
    rw [compareTo_mapping first keys] at hab
    rw [compareTo_mapping second keys'] at hbc
    rw [compareTo_mapping (first.trans second) (keys.trans keys')]
    refine compareAll_trans (List.forall_mem_map.2 fun z hz x y hxy hyz => ?_) hab hbc
    exact ih z hz hxy hyz (shape_of_yes hxy) (shape_of_yes hyz)

/-- Equality does not depend on which of two values comes first, answer and marks alike, where no
    set holds two elements of one structure, and what equals the same value is equal. -/
theorem equals_comm_trans (a b c : Value) :
    (a.Apart → b.Apart → a.equals b = b.equals a) ∧
      ((a.equals b).bool? = some true → (b.equals c).bool? = some true →
        (a.equals c).bool? = some true) := by
  constructor
  · intro ha hb
    rw [equals, equals, compareTo_comm ha hb, MarkSet.union_comm]
  · intro hab hbc
    rw [equals_eq_true] at hab hbc ⊢
    exact compareTo_trans hab hbc

def markedRow (n : Number) : Value :=
  (tuple [set .number [number n, number .infinity], string "a"]).withMark "secret"

theorem markedRows_equal :
    (markedRow .zero).Apart ∧ (markedRow .negativeZero).Apart ∧
      (markedRow .zero).equals (markedRow .negativeZero) =
        (markedRow .negativeZero).equals (markedRow .zero) ∧
      ((markedRow .zero).equals (markedRow .negativeZero)).bool? = some true ∧
      ((markedRow .zero).equals (markedRow .zero)).bool? = some true := by
  have row : ∀ n, (number n).same (number .infinity) = false →
      set .number [number n, number .infinity] =
        .sequence (.set .number) [number n, number .infinity] ∅ → (markedRow n).Apart := by
    intro n differ content
    refine .sequence nofun (List.forall_mem_cons.2 ⟨?_, List.forall_mem_singleton.2 .scalar⟩)
    rw [content]
    refine .sequence (fun _ _ => List.pairwise_pair.2 differ) ?_
    exact List.forall_mem_cons.2 ⟨.scalar, List.forall_mem_singleton.2 .scalar⟩
  have az := row .zero rfl rfl
  have an := row .negativeZero rfl rfl
  have there : ((markedRow .zero).equals (markedRow .negativeZero)).bool? = some true := rfl
  have back : ((markedRow .negativeZero).equals (markedRow .zero)).bool? = some true := rfl
  obtain ⟨comm, trans⟩ := equals_comm_trans (markedRow .zero) (markedRow .negativeZero)
    (markedRow .zero)
  exact ⟨az, an, (comm az an).symm, there, trans there back⟩

end MarkedValues.Value
