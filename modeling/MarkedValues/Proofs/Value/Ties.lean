import MarkedValues.Proofs.Value.Ordering

/-!
What the order does not tell apart. It is blind to marks and to what an unknown says about null, and
to nothing else: unmarked values tie exactly when they are one value but for refinements.
-/
namespace MarkedValues

theorem compareLex_eq_eq {α : Type} {cmp : α → α → Ordering} {as bs : List α} :
    List.compareLex cmp as bs = .eq ↔ List.Forall₂ (fun a b => cmp a b = .eq) as bs := by
  induction as generalizing bs with
  | nil => cases bs <;> simp [List.compareLex]
  | cons a as ih =>
    cases bs with
    | nil => simp [List.compareLex_cons_nil]
    | cons b bs => rw [List.compareLex_cons_cons, Ordering.then_eq_eq, ih, List.forall₂_cons]

theorem Ty.eq_of_order {a b : Ty} (h : order a b = .eq) : a = b := by
  have kind := kindIndex_of_order h
  induction a generalizing b with
  | string | number | bool | dynamic =>
    cases b <;> cases kind
    rfl
  | list e ih | set e ih | map e ih =>
    cases b <;> cases kind
    next f =>
      have part : e = f := ih h (kindIndex_of_order h)
      rw [part]
  | tuple ts ih =>
    cases b <;> cases kind
    rw [order, orderAll_eq, compareLex_eq_eq] at h
    rw [Lists.eq_of_forall₂ (fun _ _ _ same => same)
      (Lists.forall₂_imp_left (fun t ht u hu => ih t ht hu (kindIndex_of_order hu)) h)]
  | object attrs ih =>
    cases b <;> cases kind
    rw [order, orderAttrs_eq, compareLex_eq_eq] at h
    refine congrArg object (Lists.eq_of_forall₂ (fun _ _ _ same => same)
      (Lists.forall₂_imp_left (fun a ha b hb => ?_) h))
    obtain ⟨key, part⟩ := Ordering.then_eq_eq.1 hb
    exact Prod.ext (Std.LawfulEqCmp.eq_of_compare key) (ih a ha part (kindIndex_of_order part))

theorem Ty.order_self (a : Ty) : order a a = .eq := by
  have swap := order_swap a a
  cases h : order a a <;> simp_all

theorem Ty.order_eq_eq {a b : Ty} : order a b = .eq ↔ a = b :=
  ⟨eq_of_order, fun same => same ▸ order_self a⟩

theorem Scalar.eq_of_order {s t : Scalar} (type : s.ty = t.ty) (h : s.order t = .eq) : s = t := by
  cases s <;> cases t <;> cases type
  · next a b =>
    have tied : compare a b = .eq := h
    rw [Std.LawfulEqCmp.eq_of_compare tied]
  · next a b =>
    have same : a = b := Number.order_eq_eq_iff.1 h
    rw [same]
  · next a b =>
    have same : a.toNat = b.toNat := Nat.compare_eq_eq.1 h
    cases a <;> cases b <;> cases same <;> rfl

namespace Value

mutual

/-- The value where no unknown, at any depth, is said never to become null. -/
def unrefined : Value → Value
  | .null t m => .null t m
  | .unknown t _ m => .unknown t false m
  | .scalar s m => .scalar s m
  | .sequence k es m => .sequence k (unrefinedAll es) m
  | .mapping k es m => .mapping k (unrefinedEntries es) m

def unrefinedAll : List Value → List Value
  | [] => []
  | v :: vs => v.unrefined :: unrefinedAll vs

def unrefinedEntries : List (String × Value) → List (String × Value)
  | [] => []
  | (k, v) :: rest => (k, v.unrefined) :: unrefinedEntries rest

end

@[simp] theorem unrefinedAll_eq_map (vs : List Value) : unrefinedAll vs = vs.map unrefined := by
  induction vs with
  | nil => rfl
  | cons v vs ih => simp [unrefinedAll, ih]

@[simp] theorem unrefinedEntries_eq_mapValues (es : List (String × Value)) :
    unrefinedEntries es = Dict.mapValues unrefined es := by
  induction es with
  | nil => rfl
  | cons e es ih => rw [unrefinedEntries, ih]; rfl

theorem kind_of_ty {k l : SequenceKind} {xs ys : List Value} {m n : MarkSet}
    (h : Value.ty (.sequence k xs m) = Value.ty (.sequence l ys n)) : k = l := by
  cases k <;> cases l <;> simp_all [ty]

theorem kind_of_mapping_ty {k l : MappingKind} {xs ys : List (String × Value)} {m n : MarkSet}
    (h : Value.ty (.mapping k xs m) = Value.ty (.mapping l ys n)) : k = l := by
  cases k <;> cases l <;> simp_all [ty]

theorem order_eq_eq {a b : Value} : order a b = .eq ↔
    (a.stateRank = b.stateRank ∧ a.ty = b.ty) ∧ contentOrder a b = .eq := by
  rw [order_eq, Ordering.then_eq_eq, Ordering.then_eq_eq, Nat.compare_eq_eq, Ty.order_eq_eq]

theorem alike_of_tied {a b : Value} (h : order a b = .eq) :
    a.shape = b.shape ∧ a.ty = b.ty ∧ contentOrder a b = .eq := by
  obtain ⟨⟨rank, type⟩, content⟩ := order_eq_eq.1 h
  exact ⟨shape_of_rank rank (congrArg Ty.kindIndex type), type, content⟩

theorem map_unrefined_of_tied {xs ys : List Value} (hx : ∀ x ∈ xs, x.Unmarked)
    (hy : ∀ y ∈ ys, y.Unmarked)
    (each : ∀ x ∈ xs, ∀ y, x.Unmarked → y.Unmarked → order x y = .eq → x.unrefined = y.unrefined)
    (tied : List.compareLex order xs ys = .eq) : xs.map unrefined = ys.map unrefined := by
  have places := Lists.forall₂_imp_members
    (fun x mem y mem' tie => each x mem y (hx x mem) (hy y mem') tie) (compareLex_eq_eq.1 tied)
  exact Lists.map_eq_of_forall₂ places

theorem unrefined_of_order {a b : Value} (ha : a.Unmarked) (hb : b.Unmarked)
    (h : order a b = .eq) : a.unrefined = b.unrefined := by
  induction a generalizing b with
  | null t m =>
    obtain ⟨shape, type, _⟩ := alike_of_tied h
    cases b <;> cases shape
    cases ha
    cases hb
    exact congrArg (null · ∅) type
  | unknown t r m =>
    obtain ⟨shape, type, _⟩ := alike_of_tied h
    cases b <;> cases shape
    cases ha
    cases hb
    exact congrArg (unknown · false ∅) type
  | scalar s m =>
    obtain ⟨shape, type, content⟩ := alike_of_tied h
    cases b <;> cases shape
    cases ha
    cases hb
    exact congrArg (scalar · ∅) (Scalar.eq_of_order type content)
  | sequence k xs m ih =>
    obtain ⟨shape, type, content⟩ := alike_of_tied h
    cases b <;> cases shape
    next l ys n =>
      obtain ⟨rfl, ux⟩ := unmarked_sequence.1 ha
      obtain ⟨rfl, uy⟩ := unmarked_sequence.1 hb
      cases kind_of_ty type
      have parts := map_unrefined_of_tied ux uy (fun x hx y px py tied => ih x hx px py tied) content
      simp only [unrefined, unrefinedAll_eq_map, parts]
  | mapping k xs m ih =>
    obtain ⟨shape, type, content⟩ := alike_of_tied h
    cases b <;> cases shape
    next l ys n =>
      obtain ⟨rfl, ux⟩ := unmarked_mapping.1 ha
      obtain ⟨rfl, uy⟩ := unmarked_mapping.1 hb
      cases kind_of_mapping_ty type
      obtain ⟨key, values⟩ := Ordering.then_eq_eq.1 content
      have keys : Dict.keys xs = Dict.keys ys := Std.LawfulEqCmp.eq_of_compare key
      have parts : (Dict.values xs).map unrefined = (Dict.values ys).map unrefined :=
        map_unrefined_of_tied (List.forall_mem_map.2 ux) (List.forall_mem_map.2 uy)
          (List.forall_mem_map.2 fun x hx y px py tied => ih x hx px py tied) values
      have entries : Dict.mapValues unrefined xs = Dict.mapValues unrefined ys := by
        refine Dict.ext ?_ ?_
        · rw [Dict.keys_mapValues, Dict.keys_mapValues, keys]
        · rw [Dict.values_mapValues, Dict.values_mapValues, parts]
      simp only [unrefined, unrefinedEntries_eq_mapValues, entries]

@[simp] theorem ty_unrefined (v : Value) : v.unrefined.ty = v.ty := by
  induction v with
  | sequence k es m ih =>
    have parts : es.map (ty ∘ unrefined) = es.map ty := List.map_congr_left ih
    cases k <;> simp [unrefined, ty, parts]
  | mapping k es m ih =>
    have parts : es.map (fun x => (x.1, x.2.unrefined.ty)) = es.map fun x => (x.1, x.2.ty) :=
      List.map_congr_left fun x hx => by rw [ih x hx]
    cases k with
    | map e => rfl
    | object => simpa [unrefined, ty, Dict.mapValues] using parts
  | _ => rfl

structure KeepsContent (f : Value → Value) : Prop where
  stateRank : ∀ v, (f v).stateRank = v.stateRank
  ty : ∀ v, (f v).ty = v.ty
  scalar : ∀ s m, ∃ n, f (.scalar s m) = .scalar s n
  sequence : ∀ k es m, ∃ n, f (.sequence k es m) = .sequence k (es.map f) n
  mapping : ∀ k es m, ∃ n, f (.mapping k es m) = .mapping k (Dict.mapValues f es) n

theorem KeepsContent.order_self {f : Value → Value} (keeps : KeepsContent f) (v : Value) :
    order v (f v) = .eq := by
  have ranked : ∀ {v : Value}, contentOrder v (f v) = .eq → order v (f v) = .eq := fun {v} content =>
    order_eq_eq.2 ⟨⟨(keeps.stateRank v).symm, (keeps.ty v).symm⟩, content⟩
  have each : ∀ {vs : List Value}, (∀ v ∈ vs, order v (f v) = .eq) →
      List.compareLex order vs (vs.map f) = .eq := fun ih =>
    compareLex_eq_eq.2 (List.forall₂_map_right_iff.2 (List.forall₂_same.2 ih))
  induction v with
  | null t m => exact ranked rfl
  | unknown t r m => exact ranked rfl
  | scalar s m =>
    have itself : order (.scalar s m) (.scalar s m) = .eq := Std.ReflCmp.compare_self
    obtain ⟨n, image⟩ := keeps.scalar s m
    exact ranked (image ▸ (order_eq_eq.1 itself).2)
  | sequence k es m ih =>
    obtain ⟨n, image⟩ := keeps.sequence k es m
    exact ranked (image ▸ each ih)
  | mapping k es m ih =>
    obtain ⟨n, image⟩ := keeps.mapping k es m
    refine ranked ?_
    rw [image, contentOrder, Dict.keys_mapValues, Dict.values_mapValues, Ordering.then_eq_eq]
    exact ⟨Std.ReflCmp.compare_self, each (List.forall_mem_map.2 ih)⟩

theorem keepsContent_unrefined : KeepsContent unrefined where
  stateRank v := by cases v <;> rfl
  ty := ty_unrefined
  scalar _ m := ⟨m, rfl⟩
  sequence k es m := ⟨m, by rw [unrefined, unrefinedAll_eq_map]⟩
  mapping k es m := ⟨m, by rw [unrefined, unrefinedEntries_eq_mapValues]⟩

theorem keepsContent_erase : KeepsContent erase where
  stateRank v := by cases v <;> rfl
  ty := ty_erase
  scalar _ _ := ⟨∅, rfl⟩
  sequence k es _ := ⟨∅, by rw [erase, eraseAll_eq_map]⟩
  mapping k es _ := ⟨∅, by rw [erase, eraseEntries_eq_mapValues]⟩

/-- Unmarked values tie exactly when they are one value but for refinements. -/
theorem order_eq_iff_unrefined {a b : Value} (ha : a.Unmarked) (hb : b.Unmarked) :
    order a b = .eq ↔ a.unrefined = b.unrefined := by
  refine ⟨unrefined_of_order ha hb, fun same => ?_⟩
  have left : order a b.unrefined = .eq := same ▸ keepsContent_unrefined.order_self a
  have right : order b.unrefined b = .eq :=
    Std.OrientedCmp.eq_symm (keepsContent_unrefined.order_self b)
  exact Std.TransCmp.eq_trans left right

/-- Marks have no say in the order. -/
theorem order_erase (a b : Value) : order a.erase b.erase = order a b :=
  (Std.TransCmp.congr_right (keepsContent_erase.order_self b)).symm.trans
    (Std.TransCmp.congr_left (keepsContent_erase.order_self a)).symm

/-- The order is a total preorder on all values, and it takes two values for one exactly when they
    are the same to the bit once marks and refinements are removed at every depth. -/
theorem order_total_preorder (a b c : Value) :
    order a a = .eq ∧ order b a = (order a b).swap ∧
    ((order a b).isLE = true → (order b c).isLE = true → (order a c).isLE = true) ∧
    (order a b = .eq ↔ a.erase.unrefined = b.erase.unrefined) := by
  refine ⟨Std.ReflCmp.compare_self, order_swap b a, Std.TransCmp.isLE_trans, ?_⟩
  rw [← order_erase]
  exact order_eq_iff_unrefined (unmarked_erase a) (unmarked_erase b)

theorem known_null_unknown_ascend :
    (order (.int 1) (.null .string ∅)).isLE = true ∧
    (order (.null .string ∅) (.unknown .bool true ∅)).isLE = true ∧
    (order (.int 1) (.unknown .bool true ∅)).isLE = true := by
  have first : (order (.int 1) (.null .string ∅)).isLE = true := rfl
  have second : (order (.null .string ∅) (.unknown .bool true ∅)).isLE = true := rfl
  obtain ⟨_, _, composed, _⟩ := order_total_preorder (.int 1) (.null .string ∅)
    (.unknown .bool true ∅)
  exact ⟨first, second, composed first second⟩

@[simp] theorem isWhollyKnown_unrefined (v : Value) :
    v.unrefined.isWhollyKnown = v.isWhollyKnown := by
  induction v with
  | sequence k es m ih =>
    simp only [unrefined, isWhollyKnown, unrefinedAll_eq_map, allWhollyKnown_eq_all, List.all_map]
    rw [Bool.eq_iff_iff, List.all_eq_true, List.all_eq_true]
    exact forall₂_congr fun v hv => by rw [Function.comp_apply, ih v hv]
  | mapping k es m ih =>
    simp only [unrefined, isWhollyKnown, unrefinedEntries_eq_mapValues, entriesWhollyKnown_eq_all,
      Dict.mapValues, List.all_map]
    rw [Bool.eq_iff_iff, List.all_eq_true, List.all_eq_true]
    exact forall₂_congr fun x hx => by rw [Function.comp_apply, ih x hx]
  | _ => rfl

theorem unrefined_of_isWhollyKnown {v : Value} (whole : v.isWhollyKnown = true) :
    v.unrefined = v := by
  induction v with
  | unknown t r m => cases whole
  | sequence k es m ih =>
    simp only [isWhollyKnown, allWhollyKnown_eq_all, List.all_eq_true] at whole
    have parts : es.map unrefined = es :=
      (List.map_congr_left fun v hv => ih v hv (whole v hv)).trans (List.map_id es)
    simp only [unrefined, unrefinedAll_eq_map, parts]
  | mapping k es m ih =>
    simp only [isWhollyKnown, entriesWhollyKnown_eq_all, List.all_eq_true] at whole
    have parts : Dict.mapValues unrefined es = es := by
      refine (List.map_congr_left fun x hx => ?_).trans (List.map_id es)
      rw [ih x hx (whole x hx)]
      rfl
    simp only [unrefined, unrefinedEntries_eq_mapValues, parts]
  | _ => rfl

theorem eq_of_tied {a b : Value} (ha : a.Unmarked) (hb : b.Unmarked)
    (whole : b.isWhollyKnown = true) (h : order a b = .eq) : a = b := by
  have same := unrefined_of_order ha hb h
  have whole' : a.isWhollyKnown = true := by
    rwa [← isWhollyKnown_unrefined, same, isWhollyKnown_unrefined]
  rwa [unrefined_of_isWhollyKnown whole, unrefined_of_isWhollyKnown whole'] at same

end Value

end MarkedValues
