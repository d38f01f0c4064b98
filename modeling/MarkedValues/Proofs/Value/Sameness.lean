import MarkedValues.Proofs.Value.Equality

/-!
Values of the same structure, and what a set keeps of its elements. Elements merge
only with elements that are the same, so each of them is still represented, by itself
or by one that it equals.
-/
namespace MarkedValues

theorem Number.same_symm {a b : Number} (h : a.same b = true) : b.same a = true := by
  simp only [same, Bool.and_eq_true, beq_iff_eq] at h ⊢
  exact ⟨⟨h.1.2, h.1.1⟩, h.2.symm⟩

theorem Number.same_trans {a b c : Number} (hab : a.same b = true) (hbc : b.same c = true) :
    a.same c = true := by
  simp only [same, Bool.and_eq_true, beq_iff_eq] at hab hbc ⊢
  exact ⟨⟨hab.1.1, hbc.1.2⟩, hab.2.trans hbc.2⟩

namespace Scalar

theorem same_symm {s t : Scalar} (h : s.same t = true) : t.same s = true := by
  cases s <;> cases t <;> simp only [same, beq_iff_eq, Bool.false_eq_true] at h ⊢
  · exact h.symm
  · exact Number.same_symm h
  · exact h.symm

theorem same_trans {s t u : Scalar} (hst : s.same t = true) (htu : t.same u = true) :
    s.same u = true := by
  cases s <;> cases t <;> simp only [same, beq_iff_eq, Bool.false_eq_true] at hst
  · rwa [hst]
  · cases u <;> simp only [same, Bool.false_eq_true] at htu ⊢
    exact Number.same_trans hst htu
  · rwa [hst]

theorem ty_of_same {s t : Scalar} (h : s.same t = true) : s.ty = t.ty := by
  cases s <;> cases t <;> first | rfl | cases h

end Scalar

namespace Value

open MarkedValues.Lists

theorem sameAll_iff {xs ys : List Value} :
    sameAll xs ys = true ↔ List.Forall₂ (fun x y => x.same y = true) xs ys := by
  induction xs generalizing ys with
  | nil => cases ys <;> simp [sameAll]
  | cons x xs ih => cases ys <;> simp [sameAll, ih]

theorem sameEntries_iff {xs ys : List (String × Value)} :
    sameEntries xs ys = true ↔ Dict.keys xs = Dict.keys ys ∧
      List.Forall₂ (fun x y => x.same y = true) (Dict.values xs) (Dict.values ys) := by
  simp only [Dict.keys, Dict.values]
  induction xs generalizing ys with
  | nil => cases ys <;> simp [sameEntries]
  | cons x xs ih => cases ys <;> simp [sameEntries, ih, and_assoc, and_left_comm]

inductive Same : Value → Value → Prop
  | null {t : Ty} {m : MarkSet} : Same (.null t m) (.null t m)
  | unknown {t : Ty} {r : Bool} {m : MarkSet} : Same (.unknown t r m) (.unknown t r m)
  | scalar {s t : Scalar} {m : MarkSet} (content : s.same t = true) :
    Same (.scalar s m) (.scalar t m)
  | sequence {k : SequenceKind} {xs ys : List Value} {m : MarkSet}
    (parts : List.Forall₂ (fun x y => x.same y = true) xs ys) :
    Same (.sequence k xs m) (.sequence k ys m)
  | mapping {k : MappingKind} {xs ys : List (String × Value)} {m : MarkSet}
    (keys : Dict.keys xs = Dict.keys ys)
    (parts : List.Forall₂ (fun x y => x.same y = true) (Dict.values xs) (Dict.values ys)) :
    Same (.mapping k xs m) (.mapping k ys m)

theorem same_iff {x y : Value} : x.same y = true ↔ Same x y := by
  constructor
  · intro h
    cases x <;> cases y <;> simp only [same, Bool.and_eq_true, beq_iff_eq, Bool.false_eq_true] at h
    · obtain ⟨rfl, rfl⟩ := h
      exact .null
    · obtain ⟨⟨rfl, rfl⟩, rfl⟩ := h
      exact .unknown
    · obtain ⟨content, rfl⟩ := h
      exact .scalar content
    · obtain ⟨⟨rfl, parts⟩, rfl⟩ := h
      exact .sequence (sameAll_iff.1 parts)
    · obtain ⟨⟨rfl, parts⟩, rfl⟩ := h
      exact .mapping (sameEntries_iff.1 parts).1 (sameEntries_iff.1 parts).2
  · rintro (_ | _ | content | parts | ⟨keys, parts⟩)
    · simp [same]
    · simp [same]
    · simp [same, content]
    · simp [same, sameAll_iff.2 parts]
    · simp [same, sameEntries_iff.2 ⟨keys, parts⟩]

theorem same_symm {x y : Value} (h : x.same y = true) : y.same x = true := by
  rw [same_iff] at h ⊢
  induction x generalizing y with
  | null t m =>
    cases h
    exact .null
  | unknown t r m =>
    cases h
    exact .unknown
  | scalar s m =>
    cases h with
    | scalar content => exact .scalar (Scalar.same_symm content)
  | sequence k xs m ih =>
    cases h with
    | sequence parts =>
      refine .sequence (forall₂_imp_left (fun x hx y hxy => ?_) parts).flip
      exact same_iff.2 (ih x hx (same_iff.1 hxy))
  | mapping k xs m ih =>
    cases h with
    | mapping keys parts =>
      refine .mapping keys.symm
        (forall₂_imp_left (List.forall_mem_map.2 fun x hx y hxy => ?_) parts).flip
      exact same_iff.2 (ih x hx (same_iff.1 hxy))

theorem same_trans {x y z : Value} (hxy : x.same y = true) (hyz : y.same z = true) :
    x.same z = true := by
  rw [same_iff] at hxy hyz ⊢
  induction z generalizing x y with
  | null t m =>
    cases hyz
    exact hxy
  | unknown t r m =>
    cases hyz
    exact hxy
  | scalar s m =>
    cases hyz with
    | scalar content' =>
      cases hxy with
      | scalar content => exact .scalar (Scalar.same_trans content content')
  | sequence k zs m ih =>
    cases hyz with
    | sequence parts' =>
      cases hxy with
      | sequence parts =>
        refine .sequence (forall₂_trans (fun z hz x y hxy hyz => ?_) parts parts')
        exact same_iff.2 (ih z hz (same_iff.1 hxy) (same_iff.1 hyz))
  | mapping k zs m ih =>
    cases hyz with
    | mapping keys' parts' =>
      cases hxy with
      | mapping keys parts =>
        refine .mapping (keys.trans keys')
          (forall₂_trans (List.forall_mem_map.2 fun z hz x y hxy hyz => ?_) parts parts')
        exact same_iff.2 (ih z hz (same_iff.1 hxy) (same_iff.1 hyz))

/-- What is the same as another value is the same as itself. -/
theorem same_left {x y : Value} (h : x.same y = true) : x.same x = true :=
  same_trans h (same_symm h)

theorem same_right {x y : Value} (h : x.same y = true) : y.same y = true :=
  same_left (same_symm h)

theorem ty_of_same {x y : Value} (h : x.same y = true) : x.ty = y.ty := by
  rw [same_iff] at h
  have types : ∀ {xs ys : List Value},
      (∀ x ∈ xs, ∀ y, x.same y = true → x.ty = y.ty) →
      List.Forall₂ (fun x y => x.same y = true) xs ys → xs.map ty = ys.map ty :=
    fun each parts => map_eq_of_forall₂ (forall₂_imp_left each parts)
  induction x generalizing y with
  | null t m =>
    cases h
    rfl
  | unknown t r m =>
    cases h
    rfl
  | scalar s m =>
    cases h with
    | scalar content => exact Scalar.ty_of_same content
  | sequence k xs m ih =>
    cases h with
    | sequence parts =>
      have each := types (fun x hx y hxy => ih x hx (same_iff.1 hxy)) parts
      cases k <;> simp only [ty, tyAll_eq_map, each]
  | mapping k xs m ih =>
    cases h with
    | mapping keys parts =>
      refine ty_mapping_congr keys (types (List.forall_mem_map.2 fun x hx y hxy => ?_) parts)
      exact ih x hx (same_iff.1 hxy)

theorem isWhollyKnown_of_same {x y : Value} (h : x.same y = true) (whole : y.isWhollyKnown = true) :
    x.isWhollyKnown = true := by
  rw [same_iff] at h
  have all : ∀ {xs ys : List Value},
      (∀ x ∈ xs, ∀ y, x.same y = true → y.isWhollyKnown = true → x.isWhollyKnown = true) →
      List.Forall₂ (fun x y => x.same y = true) xs ys → (∀ y ∈ ys, y.isWhollyKnown = true) →
      ∀ x ∈ xs, x.isWhollyKnown = true := by
    intro xs ys each parts whole x hx
    obtain ⟨y, hy, hxy⟩ := exists_of_mem_right parts.flip hx
    exact each x hx y hxy (whole y hy)
  induction x generalizing y with
  | null t m => rfl
  | unknown t r m =>
    cases h
    exact whole
  | scalar s m => rfl
  | sequence k xs m ih =>
    cases h with
    | sequence parts =>
      simp only [isWhollyKnown, allWhollyKnown_eq_all, List.all_eq_true] at whole ⊢
      exact all (fun x hx y hxy => ih x hx (same_iff.1 hxy)) parts whole
  | mapping k xs m ih =>
    cases h with
    | mapping keys parts =>
      simp only [isWhollyKnown, entriesWhollyKnown_eq_all, List.all_eq_true] at whole ⊢
      exact List.forall_mem_map.1 (all
        (List.forall_mem_map.2 fun x hx y hxy => ih x hx (same_iff.1 hxy)) parts
        (List.forall_mem_map.2 whole))

theorem compareAll_of_same {xs ys vs : List Value}
    (each : ∀ x ∈ xs, ∀ y v, x.same y = true → x.compareTo v = .yes → y.compareTo v = .yes)
    (parts : List.Forall₂ (fun x y => x.same y = true) xs ys) (yes : compareAll xs vs = .yes) :
    compareAll ys vs = .yes := by
  induction parts generalizing vs with
  | nil => exact yes
  | cons hxy _ ih =>
    cases vs with
    | nil => cases yes
    | cons v vs =>
      simp only [compareAll, Verdict.and_eq_yes] at yes ⊢
      exact ⟨each _ (by simp) _ v hxy yes.1, ih (fun x hx => each x (by simp [hx])) yes.2⟩

/-- What equals a value is not to be told from what is the same. -/
theorem compareTo_of_same {x y v : Value} (h : x.same y = true) (yes : x.compareTo v = .yes) :
    y.compareTo v = .yes := by
  rw [same_iff] at h
  induction x generalizing y v with
  | null t m =>
    cases h
    exact yes
  | unknown t r m =>
    cases h
    exact yes
  | scalar s m =>
    cases h with
    | scalar content =>
      cases v with
      | scalar u n =>
        rw [compareTo, Verdict.ofBool_eq_yes] at yes ⊢
        exact Scalar.same_trans (Scalar.same_symm content) yes
      | _ => cases yes
  | sequence k xs m ih =>
    have types := ty_of_same (same_iff.2 h)
    have each : ∀ x ∈ xs, ∀ y v, x.same y = true → x.compareTo v = .yes → y.compareTo v = .yes :=
      fun x hx y v hxy yes => ih x hx (same_iff.1 hxy) yes
    have whole := isWhollyKnown_of_same (same_symm (same_iff.2 h)) (isWhollyKnown_of_yes yes).1
    cases h with
    | @sequence _ _ ys _ parts =>
      cases v with
      | sequence l vs n =>
        by_cases same : Value.ty (.sequence k xs m) = Value.ty (.sequence l vs n)
        · have same' := types.symm.trans same
          cases k with
          | set e =>
            rw [compareTo_set same] at yes
            rw [compareTo_set same']
            split at yes
            · next known =>
              simp only [isWhollyKnown, allWhollyKnown_eq_all, Bool.and_eq_true] at whole known
              simp only [Verdict.ofBool_eq_yes, Bool.and_eq_true, beq_iff_eq, List.all_eq_true,
                List.any_eq_true] at yes
              rw [if_pos (by rw [whole, known.2]; rfl)]
              simp only [Verdict.ofBool_eq_yes, Bool.and_eq_true, beq_iff_eq, List.all_eq_true,
                List.any_eq_true]
              refine ⟨parts.length_eq.symm.trans yes.1, fun y hy => ?_⟩
              obtain ⟨x, hx, hxy⟩ := exists_of_mem_right parts hy
              obtain ⟨v, hv, hvx⟩ := yes.2 x hx
              exact ⟨v, hv, same_trans hvx hxy⟩
            · cases yes
          | _ =>
            rw [compareTo_sequence same (by simp)] at yes
            rw [compareTo_sequence same' (by simp)]
            exact compareAll_of_same each parts yes
        · rw [compareTo_of_ty_ne same] at yes
          cases yes
      | _ => cases yes
  | mapping k xs m ih =>
    have types := ty_of_same (same_iff.2 h)
    have each : ∀ x ∈ Dict.values xs, ∀ y v, x.same y = true → x.compareTo v = .yes →
        y.compareTo v = .yes :=
      List.forall_mem_map.2 fun x hx y v hxy yes => ih x hx (same_iff.1 hxy) yes
    cases h with
    | mapping keys parts =>
      cases v with
      | mapping l vs n =>
        by_cases same : Value.ty (.mapping k xs m) = Value.ty (.mapping l vs n)
        · by_cases agree : Dict.keys xs = Dict.keys vs
          · rw [compareTo_mapping same agree] at yes
            rw [compareTo_mapping (types.symm.trans same) (keys.symm.trans agree)]
            exact compareAll_of_same each parts yes
          · rw [compareTo_of_keys_ne agree] at yes
            cases yes
        · rw [compareTo_of_mapping_ty_ne same] at yes
          cases yes
      | _ => cases yes

/-- The value is in the list, or has been merged into one of it that is the same. -/
def StandsIn (vs : List Value) (v : Value) : Prop :=
  v ∈ vs ∨ v.isKnown = true ∧ ∃ w ∈ vs, v.same w = true

theorem standsIn_dropRepeats {last v : Value} {vs : List Value} (h : v ∈ vs) :
    StandsIn (last :: dropRepeats last vs) v := by
  induction vs generalizing last with
  | nil => cases h
  | cons u us ih =>
    rw [dropRepeats]
    split
    · next repeats =>
      rcases List.mem_cons.1 h with rfl | h
      · rw [Bool.and_eq_true] at repeats
        exact .inr ⟨repeats.1, last, List.mem_cons_self, repeats.2⟩
      · exact ih h
    · rcases List.mem_cons.1 h with rfl | h
      · exact .inl (List.mem_cons_of_mem _ List.mem_cons_self)
      · refine (ih h).imp (List.mem_cons_of_mem last) fun merged => ?_
        obtain ⟨known, w, hw, same⟩ := merged
        exact ⟨known, w, List.mem_cons_of_mem last hw, same⟩

/-- No element of a set gets lost. -/
theorem standsIn_normalize {v : Value} {vs : List Value} (h : v ∈ vs) :
    StandsIn (normalize vs) v := by
  have sorted : v ∈ sort vs := (perm_sort vs).mem_iff.2 h
  unfold normalize
  cases hvs : sort vs with
  | nil =>
    rw [hvs] at sorted
    cases sorted
  | cons u us =>
    rw [hvs] at sorted
    rcases List.mem_cons.1 sorted with rfl | later
    · exact .inl List.mem_cons_self
    · exact standsIn_dropRepeats later

theorem isWhollyKnown_of_normalize {vs : List Value}
    (whole : ∀ w ∈ normalize vs, w.isWhollyKnown = true) : ∀ v ∈ vs, v.isWhollyKnown = true := by
  intro v hv
  rcases standsIn_normalize hv with kept | ⟨_, w, hw, same⟩
  · exact whole v kept
  · exact isWhollyKnown_of_same same (whole w hw)

end Value

end MarkedValues
