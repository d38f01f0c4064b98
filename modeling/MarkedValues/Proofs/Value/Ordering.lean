import MarkedValues.Proofs.Value.Equality

/-!
The order of types and the order of values are total preorders. Both go by a rank first and then by
the parts, so the laws of an order are carried from the parts to the whole: `Composes` says of three
comparisons of three things that they may stand together.
-/
namespace MarkedValues

/-- How two comparisons in a row determine the third. -/
def Composes (ab bc ac : Ordering) : Prop :=
  (ab = .eq → ac = bc) ∧ (bc = .eq → ac = ab) ∧ (ab = bc → ac = ab)

namespace Composes

theorem all_eq : Composes .eq .eq .eq := ⟨fun _ => rfl, fun _ => rfl, fun _ => rfl⟩

theorem followed {x y z x' y' z' : Ordering} (h : Composes x y z)
    (h' : x = .eq → y = .eq → Composes x' y' z') :
    Composes (x.then x') (y.then y') (z.then z') := by
  cases x <;> cases y <;> cases z <;> simp_all [Composes, Ordering.then]

theorem isLE {x y z : Ordering} (h : Composes x y z) (hx : x.isLE = true) (hy : y.isLE = true) :
    z.isLE = true := by
  cases x <;> cases y <;> simp_all [Composes]

end Composes

theorem swap_followed {x y x' y' : Ordering} (h : x = y.swap) (h' : x = .eq → x' = y'.swap) :
    x.then x' = (y.then y').swap := by
  subst h
  cases y with
  | eq => exact h' rfl
  | _ => rfl

section

variable {α : Type} [Ord α]

theorem compare_swap [Std.OrientedOrd α] (a b : α) : compare a b = (compare b a).swap :=
  Std.OrientedCmp.eq_swap

theorem compare_composes [Std.TransOrd α] (a b c : α) :
    Composes (compare a b) (compare b c) (compare a c) := by
  refine ⟨Std.TransCmp.congr_left, fun hbc => (Std.TransCmp.congr_right hbc).symm, fun same => ?_⟩
  cases hab : compare a b with
  | lt => exact Std.TransCmp.lt_trans hab (same ▸ hab)
  | eq => exact (Std.TransCmp.congr_left hab).trans (same ▸ hab)
  | gt => exact Std.TransCmp.gt_trans hab (same ▸ hab)

end

section

variable {α : Type} {cmp : α → α → Ordering}

theorem compareLex_swap {as : List α} (each : ∀ a ∈ as, ∀ b, cmp a b = (cmp b a).swap)
    (bs : List α) : List.compareLex cmp as bs = (List.compareLex cmp bs as).swap := by
  induction as generalizing bs with
  | nil => cases bs <;> rfl
  | cons a as ih =>
    cases bs with
    | nil => rfl
    | cons b bs =>
      rw [List.compareLex_cons_cons, List.compareLex_cons_cons]
      exact swap_followed (each a (by simp) b) fun _ => ih (fun a ha => each a (by simp [ha])) bs

theorem compareLex_composes {as : List α}
    (each : ∀ a ∈ as, ∀ b c, Composes (cmp a b) (cmp b c) (cmp a c)) (bs cs : List α) :
    Composes (List.compareLex cmp as bs) (List.compareLex cmp bs cs)
      (List.compareLex cmp as cs) := by
  induction as generalizing bs cs with
  | nil => cases bs <;> cases cs <;> simp [Composes, List.compareLex]
  | cons a as ih =>
    cases bs with
    | nil => cases cs <;> simp [Composes, List.compareLex]
    | cons b bs =>
      cases cs with
      | nil => simp [Composes, List.compareLex_cons_nil, eq_comm]
      | cons c cs =>
        simp only [List.compareLex_cons_cons]
        exact (each a (by simp) b c).followed fun _ _ =>
          ih (fun a ha => each a (by simp [ha])) bs cs

end

namespace Ty

def attrOrder (a b : String × Ty) : Ordering := (compare a.1 b.1).then (order a.2 b.2)

theorem orderAll_eq (as bs : List Ty) : orderAll as bs = List.compareLex order as bs := by
  induction as generalizing bs with
  | nil => cases bs <;> rfl
  | cons a as ih =>
    cases bs with
    | nil => rfl
    | cons b bs => rw [orderAll, List.compareLex_cons_cons, ih]

theorem orderAttrs_eq (as bs : List (String × Ty)) :
    orderAttrs as bs = List.compareLex attrOrder as bs := by
  induction as generalizing bs with
  | nil => cases bs <;> rfl
  | cons a as ih =>
    cases bs with
    | nil => rfl
    | cons b bs => rw [orderAttrs, List.compareLex_cons_cons, ih, attrOrder]

theorem order_then (a b : Ty) :
    order a b = (compare a.kindIndex b.kindIndex).then (order a b) := by
  cases a <;> cases b <;> rfl

theorem order_swap (a b : Ty) : order a b = (order b a).swap := by
  induction a generalizing b with
  | string | number | bool | dynamic => cases b <;> rfl
  | list e ih | set e ih | map e ih =>
    cases b with
    | list f | set f | map f => first | exact ih f | rfl
    | _ => rfl
  | tuple ts ih =>
    cases b with
    | tuple us =>
      rw [order, order, orderAll_eq, orderAll_eq]
      exact compareLex_swap ih us
    | _ => rfl
  | object attrs ih =>
    cases b with
    | object fields =>
      rw [order, order, orderAttrs_eq, orderAttrs_eq]
      refine compareLex_swap (fun a ha b => ?_) fields
      exact swap_followed (compare_swap a.1 b.1) fun _ => ih a ha b.2
    | _ => rfl

theorem kindIndex_of_order {a b : Ty} (h : order a b = .eq) : a.kindIndex = b.kindIndex := by
  rw [order_then, Ordering.then_eq_eq] at h
  exact Nat.compare_eq_eq.1 h.1

theorem composes_of_kinds {a b c : Ty}
    (alike : b.kindIndex = a.kindIndex → c.kindIndex = a.kindIndex →
      Composes (order a b) (order b c) (order a c)) :
    Composes (order a b) (order b c) (order a c) := by
  rw [order_then a b, order_then b c, order_then a c]
  refine (compare_composes a.kindIndex b.kindIndex c.kindIndex).followed fun hab hbc => ?_
  have first := Nat.compare_eq_eq.1 hab
  have second := Nat.compare_eq_eq.1 hbc
  exact alike first.symm (first.trans second).symm

theorem order_composes (a b c : Ty) : Composes (order a b) (order b c) (order a c) := by
  induction a generalizing b c with
  | string | number | bool | dynamic =>
    refine composes_of_kinds fun hb hc => ?_
    cases b <;> cases hb
    cases c <;> cases hc
    exact .all_eq
  | list e ih | set e ih | map e ih =>
    refine composes_of_kinds fun hb hc => ?_
    cases b <;> cases hb
    cases c <;> cases hc
    exact ih _ _
  | tuple ts ih =>
    refine composes_of_kinds fun hb hc => ?_
    cases b <;> cases hb
    cases c <;> cases hc
    simp only [order, orderAll_eq]
    exact compareLex_composes ih _ _
  | object attrs ih =>
    refine composes_of_kinds fun hb hc => ?_
    cases b <;> cases hb
    cases c <;> cases hc
    simp only [order, orderAttrs_eq]
    refine compareLex_composes (fun a ha b c => ?_) _ _
    exact (compare_composes a.1 b.1 c.1).followed fun _ _ => ih a ha b.2 c.2

end Ty

namespace Scalar

theorem order_swap (s t : Scalar) : s.order t = (t.order s).swap := by
  cases s with
  | string a =>
    cases t with
    | string b => exact compare_swap a b
    | _ => rfl
  | number a =>
    cases t with
    | number b => exact compare_swap a.rank b.rank
    | _ => rfl
  | bool a =>
    cases t with
    | bool b => exact compare_swap a.toNat b.toNat
    | _ => rfl

theorem order_composes {s t u : Scalar} (hst : s.ty.kindIndex = t.ty.kindIndex)
    (htu : t.ty.kindIndex = u.ty.kindIndex) : Composes (s.order t) (t.order u) (s.order u) := by
  cases s <;> cases t <;> cases hst <;> cases u <;> cases htu
  · next a b c => exact compare_composes a b c
  · next a b c => exact compare_composes a.rank b.rank c.rank
  · next a b c => exact compare_composes a.toNat b.toNat c.toNat

end Scalar

namespace Value

theorem orderAll_eq (vs ws : List Value) : orderAll vs ws = List.compareLex order vs ws := by
  induction vs generalizing ws with
  | nil => cases ws <;> rfl
  | cons v vs ih =>
    cases ws with
    | nil => rfl
    | cons w ws => rw [orderAll, List.compareLex_cons_cons, ih]

theorem orderValues_eq {xs ys : List (String × Value)} (len : xs.length = ys.length) :
    orderValues xs ys = List.compareLex order (Dict.values xs) (Dict.values ys) := by
  induction xs generalizing ys with
  | nil =>
    cases List.length_eq_zero_iff.1 len.symm
    rfl
  | cons x xs ih =>
    obtain ⟨y, ys, rfl⟩ := List.exists_cons_of_length_eq_add_one len.symm
    rw [orderValues, ih (Nat.succ.inj len)]
    exact List.compareLex_cons_cons.symm

def contentOrder : Value → Value → Ordering
  | .scalar s _, .scalar t _ => s.order t
  | .sequence _ xs _, .sequence _ ys _ => List.compareLex order xs ys
  | .mapping _ xs _, .mapping _ ys _ =>
    (compare (Dict.keys xs) (Dict.keys ys)).then
      (List.compareLex order (Dict.values xs) (Dict.values ys))
  | _, _ => .eq

theorem order_eq (a b : Value) :
    order a b = ((compare a.stateRank b.stateRank).then (Ty.order a.ty b.ty)).then
      (contentOrder a b) := by
  cases a <;> cases b <;> first | rfl | skip
  · rw [order, contentOrder, orderAll_eq]
  · rename_i k xs m l ys n
    rw [order, contentOrder]
    cases hk : compare (Dict.keys xs) (Dict.keys ys) with
    | eq =>
      have keys : Dict.keys xs = Dict.keys ys := Std.LawfulEqCmp.eq_of_compare hk
      have len : xs.length = ys.length := by simpa [Dict.keys] using congrArg List.length keys
      rw [orderValues_eq len]
    | _ => rfl

theorem order_swap (a b : Value) : order a b = (order b a).swap := by
  have ranked : ∀ {a b : Value}, contentOrder a b = (contentOrder b a).swap →
      order a b = (order b a).swap := by
    intro a b content
    rw [order_eq, order_eq b]
    refine swap_followed (swap_followed (compare_swap _ _) fun _ => Ty.order_swap _ _) fun _ => ?_
    exact content
  induction a generalizing b with
  | null t m => exact ranked (by cases b <;> rfl)
  | unknown t r m => exact ranked (by cases b <;> rfl)
  | scalar s m =>
    refine ranked ?_
    cases b with
    | scalar t n => exact Scalar.order_swap s t
    | _ => rfl
  | sequence k es m ih =>
    refine ranked ?_
    cases b with
    | sequence l fs n => exact compareLex_swap ih fs
    | _ => rfl
  | mapping k es m ih =>
    refine ranked ?_
    cases b with
    | mapping l fs n =>
      exact swap_followed (compare_swap _ _) fun _ =>
        compareLex_swap (List.forall_mem_map.2 ih) (Dict.values fs)
    | _ => rfl

def shapeOfKind : Nat → Shape
  | 0 | 1 | 2 => .scalar
  | 5 | 7 => .mapping
  | _ => .sequence

theorem shape_of_kind {v : Value} (content : v.stateRank = 0) :
    v.shape = shapeOfKind v.ty.kindIndex := by
  cases v with
  | null t m => cases content
  | unknown t r m => cases content
  | scalar s m => cases s <;> rfl
  | sequence k es m => cases k <;> rfl
  | mapping k es m => cases k <;> rfl

theorem shape_of_rank {a b : Value} (rank : a.stateRank = b.stateRank)
    (kind : a.ty.kindIndex = b.ty.kindIndex) : a.shape = b.shape := by
  by_cases content : a.stateRank = 0
  · rw [shape_of_kind content, shape_of_kind (rank ▸ content), kind]
  · cases a with
    | null t m =>
      cases b <;> cases rank
      rfl
    | unknown t r m =>
      cases b <;> cases rank
      rfl
    | _ => exact absurd rfl content

/-- Where state and type do not decide, the values are built alike and of one kind. -/
theorem alike_of_eq {a b : Value}
    (h : (compare a.stateRank b.stateRank).then (Ty.order a.ty b.ty) = .eq) :
    a.shape = b.shape ∧ a.ty.kindIndex = b.ty.kindIndex := by
  rw [Ordering.then_eq_eq] at h
  have kind := Ty.kindIndex_of_order h.2
  exact ⟨shape_of_rank (Nat.compare_eq_eq.1 h.1) kind, kind⟩

theorem order_composes (a b c : Value) : Composes (order a b) (order b c) (order a c) := by
  have ranked : ∀ {a b c : Value}, (a.shape = b.shape → b.shape = c.shape →
      a.ty.kindIndex = b.ty.kindIndex → b.ty.kindIndex = c.ty.kindIndex →
      Composes (contentOrder a b) (contentOrder b c) (contentOrder a c)) →
      Composes (order a b) (order b c) (order a c) := by
    intro a b c content
    rw [order_eq a b, order_eq b c, order_eq a c]
    refine ((compare_composes _ _ _).followed fun _ _ => Ty.order_composes _ _ _).followed
      fun hab hbc => ?_
    have first := alike_of_eq hab
    have second := alike_of_eq hbc
    exact content first.1 second.1 first.2 second.2
  induction a generalizing b c with
  | null t m =>
    refine ranked fun hab hbc _ _ => ?_
    cases b <;> cases hab
    cases c <;> cases hbc
    exact .all_eq
  | unknown t r m =>
    refine ranked fun hab hbc _ _ => ?_
    cases b <;> cases hab
    cases c <;> cases hbc
    exact .all_eq
  | scalar s m =>
    refine ranked fun hab hbc kind kind' => ?_
    cases b <;> cases hab
    cases c <;> cases hbc
    exact Scalar.order_composes kind kind'
  | sequence k es m ih =>
    refine ranked fun hab hbc _ _ => ?_
    cases b <;> cases hab
    cases c <;> cases hbc
    exact compareLex_composes ih _ _
  | mapping k es m ih =>
    refine ranked fun hab hbc _ _ => ?_
    cases b <;> cases hab
    cases c <;> cases hbc
    exact (compare_composes _ _ _).followed fun _ _ =>
      compareLex_composes (List.forall_mem_map.2 ih) _ _

instance : Std.TransCmp order where
  eq_swap := order_swap _ _
  isLE_trans := fun hab hbc => (order_composes _ _ _).isLE hab hbc

end Value

end MarkedValues
