import Mathlib.Data.List.Forall2

/-!
Lists related member by member.
-/
namespace MarkedValues.Lists

variable {α β : Type}

theorem forall₂_imp {R S : α → β → Prop} {xs : List α} {ys : List β}
    (imp : ∀ y ∈ ys, ∀ x, R x y → S x y) (h : List.Forall₂ R xs ys) : List.Forall₂ S xs ys := by
  induction h with
  | nil => exact .nil
  | cons hxy _ ih =>
    exact .cons (imp _ (by simp) _ hxy) (ih fun y hy => imp y (by simp [hy]))

theorem forall₂_imp_left {R S : α → β → Prop} {xs : List α} {ys : List β}
    (imp : ∀ x ∈ xs, ∀ y, R x y → S x y) (h : List.Forall₂ R xs ys) : List.Forall₂ S xs ys :=
  (forall₂_imp imp h.flip).flip

theorem forall₂_imp_members {R S : α → β → Prop} {xs : List α} {ys : List β}
    (imp : ∀ x ∈ xs, ∀ y ∈ ys, R x y → S x y) (h : List.Forall₂ R xs ys) : List.Forall₂ S xs ys := by
  have right : List.Forall₂ (fun x y => y ∈ ys ∧ R x y) xs ys :=
    forall₂_imp (fun y hy _ hxy => ⟨hy, hxy⟩) h
  exact forall₂_imp_left (fun x hx y hxy => imp x hx y hxy.1 hxy.2) right

theorem forall₂_trans {R : α → α → Prop} {xs ys zs : List α}
    (trans : ∀ z ∈ zs, ∀ x y, R x y → R y z → R x z)
    (hxy : List.Forall₂ R xs ys) (hyz : List.Forall₂ R ys zs) : List.Forall₂ R xs zs := by
  induction hyz generalizing xs with
  | nil => exact hxy
  | cons h _ ih =>
    cases hxy with
    | cons g gs =>
      exact .cons (trans _ (by simp) _ _ g h) (ih (fun z hz => trans z (by simp [hz])) gs)

theorem forall₂_getElem? {R : α → β → Prop} {xs : List α} {ys : List β}
    (h : List.Forall₂ R xs ys) {i : Nat} {x : α} (hx : xs[i]? = some x) :
    ∃ y, ys[i]? = some y ∧ R x y := by
  obtain ⟨hi, rfl⟩ := List.getElem?_eq_some_iff.1 hx
  have hj : i < ys.length := h.length_eq ▸ hi
  exact ⟨ys[i], List.getElem?_eq_getElem hj, by simpa using h.get hi hj⟩

theorem forall₂_of_getElem? {R : α → β → Prop} {xs : List α} {ys : List β}
    (len : xs.length = ys.length)
    (h : ∀ (i : Nat) (x : α) (y : β), xs[i]? = some x → ys[i]? = some y → R x y) :
    List.Forall₂ R xs ys := by
  refine List.forall₂_iff_get.2 ⟨len, fun i hi hj => ?_⟩
  exact h i _ _ (List.getElem?_eq_getElem hi) (List.getElem?_eq_getElem hj)

theorem exists_of_mem_right {R : α → β → Prop} {xs : List α} {ys : List β}
    (h : List.Forall₂ R xs ys) {y : β} (hy : y ∈ ys) : ∃ x ∈ xs, R x y := by
  obtain ⟨i, hi⟩ := List.mem_iff_getElem?.1 hy
  obtain ⟨x, hx, hxy⟩ := forall₂_getElem? h.flip hi
  exact ⟨x, List.mem_of_getElem? hx, hxy⟩

/-- Members that go to one member each: the same members go to the same. -/
theorem mem_of_forall₂ {R : α → β → Prop} {xs xs' : List α} {ys ys' : List β}
    (unique : ∀ x y z, R x y → R x z → y = z) (h : List.Forall₂ R xs ys)
    (h' : List.Forall₂ R xs' ys') (sub : ∀ x ∈ xs, x ∈ xs') : ∀ y ∈ ys, y ∈ ys' := by
  intro y hy
  obtain ⟨x, hx, hxy⟩ := exists_of_mem_right h hy
  obtain ⟨z, hz, hxz⟩ := exists_of_mem_right h'.flip (sub x hx)
  rwa [unique x y z hxy hxz]

theorem isEmpty_congr {xs : List α} {ys : List β} (len : xs.length = ys.length) :
    xs.isEmpty = ys.isEmpty := by
  rw [Bool.eq_iff_iff, List.isEmpty_iff_length_eq_zero, List.isEmpty_iff_length_eq_zero, len]

theorem eq_of_forall₂ {R : α → α → Prop} {xs ys : List α}
    (eq : ∀ y ∈ ys, ∀ x, R x y → x = y) (h : List.Forall₂ R xs ys) : xs = ys := by
  have all : List.Forall₂ (· = ·) xs ys := forall₂_imp eq h
  rwa [List.forall₂_eq_eq_eq] at all

/-- Lists related so that members are equal or stand in another relation are equal, or that relation
    holds at some place. -/
theorem eq_or_exists_of_forall₂ {P : α → α → Prop} {xs ys : List α}
    (h : List.Forall₂ (fun x y => x = y ∨ P x y) xs ys) :
    xs = ys ∨ ∃ (i : Nat) (x y : α), xs[i]? = some x ∧ ys[i]? = some y ∧ P x y := by
  induction h with
  | nil => exact .inl rfl
  | @cons x y xs ys here _ ih =>
    rcases here with rfl | differ
    · refine ih.imp (congrArg _) ?_
      rintro ⟨i, u, v, hu, hv, differ⟩
      exact ⟨i + 1, u, v, hu, hv, differ⟩
    · exact .inr ⟨0, x, y, rfl, rfl, differ⟩

theorem map_eq_of_forall₂ {γ : Type} {f : α → γ} {g : β → γ} {xs : List α} {ys : List β}
    (h : List.Forall₂ (fun x y => f x = g y) xs ys) : xs.map f = ys.map g := by
  rwa [← List.forall₂_map_right_iff, ← List.forall₂_map_left_iff, List.forall₂_eq_eq_eq] at h

/-- Searching backwards finds the last member that has a result. -/
theorem findSome?_reverse_eq_some_iff {f : α → Option β} {xs : List α} {y : β} :
    xs.reverse.findSome? f = some y ↔
      ∃ before x after, xs = before ++ x :: after ∧ f x = some y ∧ ∀ z ∈ after, f z = none := by
  rw [List.findSome?_eq_some_iff]
  constructor
  · rintro ⟨after, x, before, split, found, none⟩
    refine ⟨before.reverse, x, after.reverse, ?_, found, fun z hz => none z (List.mem_reverse.1 hz)⟩
    simpa using congrArg List.reverse split
  · rintro ⟨before, x, after, rfl, found, none⟩
    refine ⟨after.reverse, x, before.reverse, by simp, found, fun z hz => none z ?_⟩
    exact List.mem_reverse.1 hz

end MarkedValues.Lists
