import Mathlib.Data.List.Chain
import Mathlib.Data.List.Perm.Subperm
import MarkedValues.Proofs.Value.Numbers
import MarkedValues.Proofs.Value.Sets
import MarkedValues.Proofs.Value.Ties

/-!
Equal elements of one set. Elements merge only with a neighbour that is the same, and the order that
makes neighbours looks at more than equality does: zeros of different sign and nulls of different
types are equal but stand apart, and other elements may come between them. Nothing else keeps two
equal elements in a set.
-/
namespace MarkedValues.Value

open MarkedValues.Lists

theorem eq_of_below {v w : Value} (hvw : Below v w) (hwv : Below w v) : order v w = .eq :=
  Std.OrientedCmp.isLE_antisymm hvw hwv

theorem isChain_normalize (vs : List Value) : (normalize vs).IsChain KeptBehind := by
  unfold normalize
  cases sort vs with
  | nil => exact .nil
  | cons v vs => exact isChain_dropRepeats v vs

/-- In sorted content nothing stands between repeats of an element that ties with no other, so the
    element is one that does not merge. -/
theorem repeats_of_isChain {vs : List Value} (sorted : vs.Pairwise Below)
    (chain : vs.IsChain KeptBehind) :
    vs.Pairwise fun u v => u = v → (∀ w ∈ vs, order w v = .eq → w = v) → KeptBehind v v := by
  induction vs with
  | nil => exact .nil
  | cons u vs ih =>
    obtain ⟨first, rest⟩ := List.pairwise_cons.1 sorted
    refine .cons (fun v hv same alone => ?_) ?_
    · cases vs with
      | nil => cases hv
      | cons w ws =>
        have next : KeptBehind u w := (List.isChain_cons_cons.1 chain).1
        have tied : w = v := by
          rcases List.mem_cons.1 hv with rfl | later
          · rfl
          · have behind := (List.pairwise_cons.1 rest).1 v later
            have before : Below v w := same ▸ first w (by simp)
            exact alone w (by simp) (eq_of_below behind before)
        rwa [same, tied] at next
    · refine (ih rest chain.tail).imp fun h same alone => ?_
      exact h same fun w hw => alone w (List.mem_cons_of_mem u hw)

theorem repeats_normalize (vs : List Value) : (normalize vs).Pairwise fun u v =>
    u = v → (∀ w ∈ normalize vs, order w v = .eq → w = v) → KeptBehind v v :=
  repeats_of_isChain (pairwise_normalize vs) (isChain_normalize vs)

/-- Lists in the order of values are one list when they have the same members, if members tie only
    with themselves. -/
theorem eq_of_perm_of_sorted {xs ys : List Value} (perm : xs.Perm ys) (sx : xs.Pairwise Below)
    (sy : ys.Pairwise Below) (ties : ∀ v ∈ ys, ∀ w ∈ ys, order v w = .eq → v = w) : xs = ys :=
  perm.eq_of_pairwise
    (fun v w hv hw hvw hwv => ties v (perm.mem_iff.1 hv) w hw (eq_of_below hvw hwv)) sx sy

section

variable {vs : List Value} (content : SetContent vs)
  (whole : ∀ v ∈ vs, v.isWhollyKnown = true)

include content

theorem SetContent.pairwise : vs.Pairwise Below := by
  rw [← content.normal]
  exact pairwise_normalize vs

theorem SetContent.isChain : vs.IsChain KeptBehind := by
  rw [← content.normal]
  exact isChain_normalize vs

include whole

theorem SetContent.eq_of_tied {v w : Value} (hv : v ∈ vs) (hw : w ∈ vs) (h : order v w = .eq) :
    v = w :=
  Value.eq_of_tied (content.unmarked v hv) (content.unmarked w hw) (whole w hw) h

theorem SetContent.nodup (plain : ∀ v ∈ vs, v.same v = true) : vs.Nodup := by
  refine (repeats_of_isChain content.pairwise content.isChain).imp_of_mem
    fun {u v} _ hv repeats same => ?_
  have kept := repeats same fun w hw => content.eq_of_tied whole hw hv
  rw [KeptBehind, plain v hv, Bool.and_true, isKnown,
    Completes.isUnknown_of_isWhollyKnown (whole v hv)] at kept
  cases kept

end

/-- Sets with the same members are built alike, unless zeros of different sign tell them apart. -/
theorem eq_or_zerosDiffer_of_members {xs ys : List Value} (cx : SetContent xs) (cy : SetContent ys)
    (whole : ∀ x ∈ xs, x.isWhollyKnown = true) (whole' : ∀ y ∈ ys, y.isWhollyKnown = true)
    (len : xs.length = ys.length) (members : ∀ x ∈ xs, ∃ y ∈ ys, y.same x = true) :
    xs = ys ∨ ∃ x ∈ xs, ∃ y ∈ ys, ZerosDiffer x y := by
  by_cases differ : ∃ x ∈ xs, ∃ y ∈ ys, ZerosDiffer x y
  · exact .inr differ
  · have kept : ∀ x ∈ xs, x ∈ ys ∧ x.same x = true := by
      intro x hx
      obtain ⟨y, hy, same⟩ := members x hx
      have eq : x = y := (eq_or_zerosDiffer_of_same (same_symm same)).resolve_right
        fun zeros => differ ⟨x, hx, y, hy, zeros⟩
      exact ⟨eq ▸ hy, eq ▸ same⟩
    have nodup : xs.Nodup := cx.nodup whole fun x hx => (kept x hx).2
    have perm : xs.Perm ys := (List.subperm_of_subset nodup fun x hx => (kept x hx).1).perm_of_length_le
      (Nat.le_of_eq len.symm)
    exact .inl (eq_of_perm_of_sorted perm cx.pairwise cy.pairwise
      fun v hv w hw => cy.eq_of_tied whole' hv hw)

def NullsDiffer (v w : Value) : Prop := v.isNull = true ∧ w.isNull = true ∧ v.ty ≠ w.ty

/-- What tells equal values apart: a zero of another sign somewhere, or a null of
    another type at one place. -/
def ToldApart (v w : Value) : Prop := ZerosDiffer v w ∨ Inside NullsDiffer v w

theorem toldApart_sequence {k : SequenceKind} {xs ys : List Value} {m n : MarkSet}
    (same : Value.ty (.sequence k xs m) = Value.ty (.sequence k ys n)) (ordered : ∀ e, k ≠ .set e)
    {i : Nat} {x y : Value} (hx : xs[i]? = some x) (hy : ys[i]? = some y) (h : ToldApart x y) :
    ToldApart (.sequence k xs m) (.sequence k ys n) :=
  h.imp (zerosDiffer_sequence (List.mem_of_getElem? hx) (List.mem_of_getElem? hy))
    (.element same ordered hx hy)

theorem toldApart_mapping {k : MappingKind} {xs ys : List (String × Value)} {m n : MarkSet}
    (same : Value.ty (.mapping k xs m) = Value.ty (.mapping k ys n))
    (keys : Dict.keys xs = Dict.keys ys) {i : Nat} {x y : Value}
    (hx : (Dict.values xs)[i]? = some x) (hy : (Dict.values ys)[i]? = some y) (h : ToldApart x y) :
    ToldApart (.mapping k xs m) (.mapping k ys n) :=
  h.imp (zerosDiffer_mapping (List.mem_of_getElem? hx) (List.mem_of_getElem? hy))
    (.entry same keys hx hy)

section

variable {xs ys : List Value}
  (each : ∀ x ∈ xs, ∀ y ∈ ys, x.compareTo y = .yes → x = y ∨ ToldApart x y)

include each

theorem eq_or_toldApart_of_compareAll (equal : compareAll xs ys = .yes) :
    xs = ys ∨ ∃ (i : Nat) (x y : Value), xs[i]? = some x ∧ ys[i]? = some y ∧ ToldApart x y :=
  eq_or_exists_of_forall₂ (forall₂_imp_members each (compareAll_eq_yes.1 equal))

theorem eq_or_toldApart_of_sequence {k l : SequenceKind}
    (cx : ∀ e, k = .set e → SetContent xs) (cy : ∀ e, l = .set e → SetContent ys)
    (equal : compareTo (.sequence k xs ∅) (.sequence l ys ∅) = .yes) :
    sequence k xs ∅ = .sequence l ys ∅ ∨ ToldApart (.sequence k xs ∅) (.sequence l ys ∅) := by
  have same : Value.ty (.sequence k xs ∅) = Value.ty (.sequence l ys ∅) := by
    by_contra differ
    rw [compareTo_of_ty_ne differ] at equal
    cases equal
  cases kind_of_ty same
  by_cases isSet : ∃ e, k = .set e
  · obtain ⟨e, rfl⟩ := isSet
    rw [compareTo_set same] at equal
    split at equal
    · next whole =>
      simp only [Bool.and_eq_true, List.all_eq_true] at whole
      simp only [Verdict.ofBool_eq_yes, Bool.and_eq_true, beq_iff_eq, List.all_eq_true,
        List.any_eq_true] at equal
      rcases eq_or_zerosDiffer_of_members (cx e rfl) (cy e rfl) whole.1 whole.2 equal.1 equal.2 with
        rfl | ⟨x, hx, y, hy, zeros⟩
      · exact .inl rfl
      · exact .inr (.inl (zerosDiffer_sequence hx hy zeros))
    · cases equal
  · have ordered : ∀ e, k ≠ .set e := fun e he => isSet ⟨e, he⟩
    rw [compareTo_sequence same ordered] at equal
    rcases eq_or_toldApart_of_compareAll each equal with rfl | ⟨i, x, y, hx, hy, apart⟩
    · exact .inl rfl
    · exact .inr (toldApart_sequence same ordered hx hy apart)

end

theorem eq_or_toldApart_of_mapping {k l : MappingKind} {xs ys : List (String × Value)}
    (each : ∀ x ∈ Dict.values xs, ∀ y ∈ Dict.values ys, x.compareTo y = .yes → x = y ∨ ToldApart x y)
    (equal : compareTo (.mapping k xs ∅) (.mapping l ys ∅) = .yes) :
    mapping k xs ∅ = .mapping l ys ∅ ∨ ToldApart (.mapping k xs ∅) (.mapping l ys ∅) := by
  have same : Value.ty (.mapping k xs ∅) = Value.ty (.mapping l ys ∅) := by
    by_contra differ
    rw [compareTo_of_mapping_ty_ne differ] at equal
    cases equal
  cases kind_of_mapping_ty same
  have keys : Dict.keys xs = Dict.keys ys := by
    by_contra differ
    rw [compareTo_of_keys_ne differ] at equal
    cases equal
  rw [compareTo_mapping same keys] at equal
  rcases eq_or_toldApart_of_compareAll each equal with values | ⟨i, x, y, hx, hy, apart⟩
  · exact .inl (by rw [Dict.ext keys values])
  · exact .inr (toldApart_mapping same keys hx hy apart)

/-- Equal values without marks are one value, unless something tells them apart that equality does
    not look at. -/
theorem eq_or_toldApart_of_equal {a b : Value} (ca : a.Canonical) (cb : b.Canonical)
    (ua : a.Unmarked) (ub : b.Unmarked) (equal : a.compareTo b = .yes) :
    a = b ∨ ToldApart a b := by
  induction a generalizing b with
  | null t m =>
    cases b with
    | null u n =>
      cases ua
      cases ub
      by_cases same : t = u
      · exact .inl (congrArg (null · ∅) same)
      · exact .inr (.inr (.here ⟨rfl, rfl, same⟩))
    | unknown u r n => cases r <;> cases equal
    | _ => cases equal
  | unknown t r m =>
    cases b with
    | null u n => cases r <;> cases equal
    | _ => cases equal
  | scalar s m =>
    cases b with
    | scalar t n =>
      cases ua
      cases ub
      rw [compareTo, Verdict.ofBool_eq_yes] at equal
      exact (eq_or_zerosDiffer_of_scalar equal).imp (congrArg (scalar · ∅)) .inl
    | _ => cases equal
  | sequence k xs m ih =>
    cases b with
    | sequence l ys n =>
      obtain ⟨rfl, ux⟩ := unmarked_sequence.1 ua
      obtain ⟨rfl, uy⟩ := unmarked_sequence.1 ub
      cases ca with
      | sequence cx px =>
        cases cb with
        | sequence cy py =>
          refine eq_or_toldApart_of_sequence (fun x hx y hy eq => ?_) cx cy equal
          exact ih x hx (px x hx) (py y hy) (ux x hx) (uy y hy) eq
    | _ => cases equal
  | mapping k xs m ih =>
    cases b with
    | mapping l ys n =>
      obtain ⟨rfl, ux⟩ := unmarked_mapping.1 ua
      obtain ⟨rfl, uy⟩ := unmarked_mapping.1 ub
      cases ca with
      | mapping px =>
        cases cb with
        | mapping py =>
          refine eq_or_toldApart_of_mapping (List.forall_mem_map.2 fun x hx =>
            List.forall_mem_map.2 fun y hy eq => ?_) equal
          exact ih x hx (px x hx) (py y hy) (ux x hx) (uy y hy) eq
    | _ => cases equal

theorem same_self_of_equal {v : Value} (equal : v.compareTo v = .yes) : v.same v = true := by
  rw [same_iff]
  induction v with
  | null t m => exact .null
  | unknown t r m => cases equal
  | scalar s m =>
    rw [compareTo, Verdict.ofBool_eq_yes] at equal
    exact .scalar equal
  | sequence k es m ih =>
    refine .sequence (List.forall₂_same.2 fun v hv => ?_)
    cases k with
    | set e =>
      rw [compareTo_set rfl] at equal
      split at equal
      · simp only [Verdict.ofBool_eq_yes, Bool.and_eq_true, List.all_eq_true,
          List.any_eq_true] at equal
        obtain ⟨w, _, same⟩ := equal.2 v hv
        exact same_right same
      · cases equal
    | _ =>
      rw [compareTo_sequence rfl (by simp), compareAll_eq_yes, List.forall₂_same] at equal
      exact same_iff.2 (ih v hv (equal v hv))
  | mapping k es m ih =>
    rw [compareTo_mapping rfl rfl, compareAll_eq_yes, List.forall₂_same] at equal
    have each : ∀ v ∈ Dict.values es, v.compareTo v = .yes → Same v v := List.forall_mem_map.2 ih
    exact .mapping rfl (List.forall₂_same.2 fun v hv => same_iff.2 (each v hv (equal v hv)))

/-- An element is kept twice only if it is not equal to itself. -/
theorem ne_of_equal {us : List Value} (unmarked : ∀ u ∈ us, u.Unmarked) :
    (normalize us).Pairwise fun u v => u.compareTo v = .yes ∨ v.compareTo u = .yes → u ≠ v := by
  refine (repeats_normalize us).imp_of_mem fun {u v} _ hv repeats equal same => ?_
  subst same
  have self : u.compareTo u = .yes := equal.elim id id
  have whole := (isWhollyKnown_of_yes self).1
  have kept := repeats rfl fun w hw => eq_of_tied (unmarked w (mem_normalize hw))
    (unmarked u (mem_normalize hv)) whole
  rw [KeptBehind, same_self_of_equal self, Bool.and_true, isKnown,
    Completes.isUnknown_of_isWhollyKnown whole] at kept
  cases kept

/-- Whatever a set is made of, two of its elements are equal only where zeros of different sign or
    nulls of different types tell them apart. -/
theorem toldApart_of_equal_elements {e : Ty} {vs : List Value} (canonical : ∀ v ∈ vs, v.Canonical)
    {i j : Nat} (places : i ≠ j) {a b : Value} (ha : (set e vs).elements[i]? = some a)
    (hb : (set e vs).elements[j]? = some b) (equal : (a.equals b).bool? = some true) :
    ToldApart a b := by
  have plain : ∀ u ∈ vs.map erase, u.Unmarked := List.forall_mem_map.2 fun v _ => unmarked_erase v
  have built : ∀ u ∈ vs.map erase, u.Canonical :=
    List.forall_mem_map.2 fun v hv => (canonical v hv).erase
  change (normalize (vs.map erase))[i]? = some a at ha
  change (normalize (vs.map erase))[j]? = some b at hb
  rw [equals_eq_true] at equal
  have memA := mem_normalize (List.mem_of_getElem? ha)
  have memB := mem_normalize (List.mem_of_getElem? hb)
  refine (eq_or_toldApart_of_equal (built a memA) (built b memB) (plain a memA) (plain b memB)
    equal).resolve_left fun same => ?_
  have apart := List.pairwise_iff_getElem.1 (ne_of_equal plain)
  obtain ⟨hi, rfl⟩ := List.getElem?_eq_some_iff.1 ha
  obtain ⟨hj, rfl⟩ := List.getElem?_eq_some_iff.1 hb
  rcases Nat.lt_or_gt_of_ne places with before | behind
  · exact apart i j hi hj before (.inl equal) same
  · exact apart j i hj hi behind (.inr equal) same.symm

def signedRows : List Value :=
  [tuple [number .negativeZero, bool false], tuple [number .negativeZero, bool true],
    tuple [number .zero, bool false]]

/-- The set of the rows keeps all three, two of them equal. -/
theorem signedRows_keep_equal :
    (∀ v ∈ signedRows, v.Canonical) ∧
      (set (.tuple [.number, .bool]) signedRows).elements = signedRows ∧
      (tuple [number .negativeZero, bool false]).equals (tuple [number .zero, bool false]) =
        bool true ∧
      ToldApart (tuple [number .negativeZero, bool false]) (tuple [number .zero, bool false]) := by
  have row : ∀ (n : Number) (b : Bool), (tuple [number n, bool b]).Canonical := fun n b =>
    canonical_tuple (List.forall_mem_cons.2 ⟨.scalar, List.forall_mem_singleton.2 .scalar⟩)
  have canonical : ∀ v ∈ signedRows, v.Canonical := List.forall_mem_cons.2
    ⟨row _ _, List.forall_mem_cons.2 ⟨row _ _, List.forall_mem_singleton.2 (row _ _)⟩⟩
  have content : (set (.tuple [.number, .bool]) signedRows).elements = signedRows := rfl
  have equal : (tuple [number .negativeZero, bool false]).equals (tuple [number .zero, bool false]) =
      bool true := rfl
  have apart := toldApart_of_equal_elements (e := .tuple [.number, .bool]) canonical
    (i := 0) (j := 2) (by decide) (congrArg (·[0]?) content) (congrArg (·[2]?) content)
    (congrArg bool? equal)
  exact ⟨canonical, content, equal, apart⟩

/-- Nulls of different types are equal too, and never merge. -/
example : (set .dynamic [nullOf .string, nullOf .number]).elements.length = 2 ∧
    (nullOf .string).equals (nullOf .number) = bool true := ⟨rfl, rfl⟩

end MarkedValues.Value
