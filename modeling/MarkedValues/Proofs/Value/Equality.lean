import MarkedValues.Proofs.Value.Completion
import MarkedValues.Value.Equality

/-!
Equality of values that are not wholly known yet. An answer once given stands when the unknowns are
resolved, with one exception: parts whose types differ count as different at once, although an
unknown of open type inside them may still bring the types together.
-/
namespace MarkedValues

namespace Verdict

@[simp] theorem and_eq_yes {a b : Verdict} : a.and b = .yes ↔ a = .yes ∧ b = .yes := by
  cases a <;> cases b <;> simp [Verdict.and]

@[simp] theorem and_eq_no {a b : Verdict} : a.and b = .no ↔ a = .no ∨ b = .no := by
  cases a <;> cases b <;> simp [Verdict.and]

@[simp] theorem ofBool_eq_yes {b : Bool} : ofBool b = .yes ↔ b = true := by
  cases b <;> simp [ofBool]

@[simp] theorem ofBool_eq_no {b : Bool} : ofBool b = .no ↔ b = false := by
  cases b <;> simp [ofBool]

end Verdict

namespace Value

open MarkedValues.Lists

theorem compareAll_eq_yes {xs ys : List Value} :
    compareAll xs ys = .yes ↔ List.Forall₂ (fun x y => compareTo x y = .yes) xs ys := by
  induction xs generalizing ys with
  | nil => cases ys <;> simp [compareAll]
  | cons x xs ih => cases ys <;> simp [compareAll, ih]

theorem compareAll_eq_no {xs ys : List Value} :
    compareAll xs ys = .no ↔ xs.length ≠ ys.length ∨
      ∃ (i : Nat) (x y : Value), xs[i]? = some x ∧ ys[i]? = some y ∧ compareTo x y = .no := by
  induction xs generalizing ys with
  | nil => cases ys <;> simp [compareAll]
  | cons x xs ih =>
    cases ys with
    | nil => simp [compareAll]
    | cons y ys =>
      simp only [compareAll, Verdict.and_eq_no, ih, List.length_cons, ne_eq, Nat.add_right_cancel_iff]
      constructor
      · rintro (here | longer | ⟨i, a, b, ha, hb, h⟩)
        · exact .inr ⟨0, x, y, rfl, rfl, here⟩
        · exact .inl longer
        · exact .inr ⟨i + 1, a, b, ha, hb, h⟩
      · rintro (longer | ⟨i, a, b, ha, hb, h⟩)
        · exact .inr (.inl longer)
        · cases i with
          | zero =>
            cases ha
            cases hb
            exact .inl h
          | succ i => exact .inr (.inr ⟨i, a, b, ha, hb, h⟩)

theorem compareEntries_eq {xs ys : List (String × Value)} (len : xs.length = ys.length) :
    compareEntries xs ys = compareAll (Dict.values xs) (Dict.values ys) := by
  induction xs generalizing ys with
  | nil =>
    cases List.length_eq_zero_iff.1 len.symm
    rfl
  | cons x xs ih =>
    obtain ⟨y, ys, rfl⟩ := List.exists_cons_of_length_eq_add_one len.symm
    rw [compareEntries, ih (Nat.succ.inj len)]
    rfl

section

variable {k l : SequenceKind} {xs ys : List Value} {m n : MarkSet}

theorem compareTo_of_ty_ne (differ : Value.ty (.sequence k xs m) ≠ Value.ty (.sequence l ys n)) :
    compareTo (.sequence k xs m) (.sequence l ys n) = .no :=
  if_pos differ

theorem compareTo_sequence (same : Value.ty (.sequence k xs m) = Value.ty (.sequence l ys n))
    (ordered : ∀ e, k ≠ .set e) :
    compareTo (.sequence k xs m) (.sequence l ys n) = compareAll xs ys := by
  cases k with
  | set e => exact absurd rfl (ordered e)
  | _ => exact if_neg (not_not_intro same)

theorem compareTo_set {e : Ty}
    (same : Value.ty (.sequence (.set e) xs m) = Value.ty (.sequence l ys n)) :
    compareTo (.sequence (.set e) xs m) (.sequence l ys n) =
      if xs.all isWhollyKnown && ys.all isWhollyKnown then
        .ofBool (xs.length == ys.length && xs.all fun x => ys.any fun y => y.same x)
      else .undecided :=
  if_neg (not_not_intro same)

end

section

variable {k l : MappingKind} {xs ys : List (String × Value)} {m n : MarkSet}

theorem compareTo_of_mapping_ty_ne
    (differ : Value.ty (.mapping k xs m) ≠ Value.ty (.mapping l ys n)) :
    compareTo (.mapping k xs m) (.mapping l ys n) = .no := by
  rw [compareTo, if_pos differ]

theorem compareTo_of_keys_ne (differ : Dict.keys xs ≠ Dict.keys ys) :
    compareTo (.mapping k xs m) (.mapping l ys n) = .no := by
  rw [compareTo, if_pos differ, ite_self]

theorem compareTo_mapping (same : Value.ty (.mapping k xs m) = Value.ty (.mapping l ys n))
    (keys : Dict.keys xs = Dict.keys ys) :
    compareTo (.mapping k xs m) (.mapping l ys n) =
      compareAll (Dict.values xs) (Dict.values ys) := by
  have len : xs.length = ys.length := by simpa [Dict.keys] using congrArg List.length keys
  rw [compareTo, if_neg (by simpa using same), if_neg (by simpa using keys), compareEntries_eq len]

end

/-- Only wholly known values are found to be equal. -/
theorem isWhollyKnown_of_yes {a b : Value} (h : a.compareTo b = .yes) :
    a.isWhollyKnown = true ∧ b.isWhollyKnown = true := by
  have parts : ∀ {xs ys : List Value},
      (∀ x ∈ xs, ∀ y, x.compareTo y = .yes → x.isWhollyKnown = true ∧ y.isWhollyKnown = true) →
      compareAll xs ys = .yes →
      (∀ x ∈ xs, x.isWhollyKnown = true) ∧ ∀ y ∈ ys, y.isWhollyKnown = true := by
    intro xs ys each h
    have both := forall₂_imp_left each (compareAll_eq_yes.1 h)
    refine ⟨fun x hx => ?_, fun y hy => ?_⟩
    · obtain ⟨y, _, hxy⟩ := exists_of_mem_right both.flip hx
      exact hxy.1
    · obtain ⟨x, _, hxy⟩ := exists_of_mem_right both hy
      exact hxy.2
  induction a generalizing b with
  | null t m =>
    cases b with
    | null _ _ => exact ⟨rfl, rfl⟩
    | unknown _ r _ => cases r <;> cases h
    | _ => cases h
  | unknown t r m =>
    cases b with
    | null _ _ => cases r <;> cases h
    | _ => cases h
  | scalar s m =>
    cases b with
    | scalar _ _ => exact ⟨rfl, rfl⟩
    | _ => cases h
  | sequence k xs m ih =>
    cases b with
    | sequence l ys n =>
      by_cases same : Value.ty (.sequence k xs m) = Value.ty (.sequence l ys n)
      · simp only [isWhollyKnown, allWhollyKnown_eq_all, List.all_eq_true]
        cases k with
        | set e =>
          rw [compareTo_set same] at h
          split at h
          · next whole => simpa using whole
          · cases h
        | list e =>
          rw [compareTo_sequence same (by simp)] at h
          exact parts (fun x hx y hy => ih x hx hy) h
        | tuple =>
          rw [compareTo_sequence same (by simp)] at h
          exact parts (fun x hx y hy => ih x hx hy) h
      · rw [compareTo_of_ty_ne same] at h
        cases h
    | _ => cases h
  | mapping k xs m ih =>
    cases b with
    | mapping l ys n =>
      by_cases same : Value.ty (.mapping k xs m) = Value.ty (.mapping l ys n)
      · by_cases keys : Dict.keys xs = Dict.keys ys
        · rw [compareTo_mapping same keys] at h
          have both := parts (List.forall_mem_map.2 fun x hx y hy => ih x hx hy) h
          simp only [isWhollyKnown, entriesWhollyKnown_eq_all, List.all_eq_true]
          exact ⟨List.forall_mem_map.1 both.1, List.forall_mem_map.1 both.2⟩
        · rw [compareTo_of_keys_ne keys] at h
          cases h
      · rw [compareTo_of_mapping_ty_ne same] at h
        cases h
    | _ => cases h

section

variable {fits : Ty → MarkSet → Value → Prop} {a b a' b' : Value}

/-- Values found to be equal have nothing left to resolve. -/
theorem compareTo_yes_final (ca : a.Canonical) (cb : b.Canonical) (ha : Completes fits a a')
    (hb : Completes fits b b') (h : a.compareTo b = .yes) : a'.compareTo b' = .yes := by
  have whole := isWhollyKnown_of_yes h
  rw [ha.eq_of_isWhollyKnown ca whole.1, hb.eq_of_isWhollyKnown cb whole.2]
  exact h

end

/-- Two parts at the same place of two values of the same type clash, at any depth outside sets. -/
inductive Inside (clash : Value → Value → Prop) : Value → Value → Prop
  | here {a b : Value} : clash a b → Inside clash a b
  | element {k l : SequenceKind} {xs ys : List Value} {m n : MarkSet} {i : Nat} {x y : Value}
    (same : Value.ty (.sequence k xs m) = Value.ty (.sequence l ys n)) (ordered : ∀ e, k ≠ .set e)
    (hx : xs[i]? = some x) (hy : ys[i]? = some y) (part : Inside clash x y) :
    Inside clash (.sequence k xs m) (.sequence l ys n)
  | entry {k l : MappingKind} {xs ys : List (String × Value)} {m n : MarkSet} {i : Nat} {x y : Value}
    (same : Value.ty (.mapping k xs m) = Value.ty (.mapping l ys n))
    (keys : Dict.keys xs = Dict.keys ys) (hx : (Dict.values xs)[i]? = some x)
    (hy : (Dict.values ys)[i]? = some y) (part : Inside clash x y) :
    Inside clash (.mapping k xs m) (.mapping l ys n)

inductive Shape where
  | null
  | unknown
  | scalar
  | sequence
  | mapping
  deriving DecidableEq

def shape : Value → Shape
  | .null .. => .null
  | .unknown .. => .unknown
  | .scalar .. => .scalar
  | .sequence .. => .sequence
  | .mapping .. => .mapping

theorem isNull_of_shape {a b : Value} (h : a.shape = b.shape) : a.isNull = b.isNull := by
  cases a <;> cases b <;> first | rfl | cases h

theorem compareTo_of_shape_ne {a b : Value} (ha : a.isUnknown = false) (hb : b.isUnknown = false)
    (differ : a.shape ≠ b.shape) : a.compareTo b = .no := by
  cases a <;> cases b <;>
    first | exact absurd rfl differ | (cases ha; done) | (cases hb; done) | rfl

theorem isUnknown_of_isNull {v : Value} (h : v.isNull = true) : v.isUnknown = false := by
  cases v <;> first | rfl | cases h

theorem shape_of_completes {fits : Ty → MarkSet → Value → Prop} {v v' : Value}
    (h : Completes fits v v') (known : v.isUnknown = false) : v'.shape = v.shape := by
  cases h with
  | unknown _ _ _ => cases known
  | _ => rfl

/-- An unknown differs for certain only from null, and only if it says that it never is. -/
theorem refined_of_no {a b : Value} (h : a.compareTo b = .no) :
    (a.isUnknown = true → a.isRefinedNotNull = true ∧ b.isNull = true) ∧
      (b.isUnknown = true → b.isRefinedNotNull = true ∧ a.isNull = true) := by
  constructor
  · intro unknown
    cases a with
    | unknown t r m =>
      cases b with
      | null s n =>
        cases r with
        | true => exact ⟨rfl, rfl⟩
        | false => cases h
      | _ => cases h
    | _ => cases unknown
  · intro unknown
    cases b with
    | unknown t r m =>
      cases a with
      | null s n =>
        cases r with
        | true => exact ⟨rfl, rfl⟩
        | false => cases h
      | _ => cases h
    | _ => cases unknown

/-- Nothing that is known tells the values apart: an unknown may be anything but a null that it says
    it is not, and the types of containers meet, with as many places or the same keys and parts that
    agree. Sets are not looked into. -/
inductive MayAgree (meet : Value → Value → Prop) : Value → Value → Prop
  | unknown_left {a b : Value} (unknown : a.isUnknown = true)
    (present : b.isNull = true → a.isRefinedNotNull = false) : MayAgree meet a b
  | unknown_right {a b : Value} (unknown : b.isUnknown = true)
    (present : a.isNull = true → b.isRefinedNotNull = false) : MayAgree meet a b
  | null {t u : Ty} {m n : MarkSet} : MayAgree meet (.null t m) (.null u n)
  | scalar {s t : Scalar} {m n : MarkSet} (same : s.same t = true) :
    MayAgree meet (.scalar s m) (.scalar t n)
  | set {e : Ty} {xs ys : List Value} {m n : MarkSet}
    (content : compareTo (.sequence (.set e) xs m) (.sequence (.set e) ys n) ≠ .no) :
    MayAgree meet (.sequence (.set e) xs m) (.sequence (.set e) ys n)
  | ordered {k l : SequenceKind} {xs ys : List Value} {m n : MarkSet}
    (types : meet (.sequence k xs m) (.sequence l ys n)) (ordered : ∀ e, k ≠ .set e)
    (parts : List.Forall₂ (MayAgree meet) xs ys) :
    MayAgree meet (.sequence k xs m) (.sequence l ys n)
  | mapping {k l : MappingKind} {xs ys : List (String × Value)} {m n : MarkSet}
    (types : meet (.mapping k xs m) (.mapping l ys n)) (keys : Dict.keys xs = Dict.keys ys)
    (parts : List.Forall₂ (MayAgree meet) (Dict.values xs) (Dict.values ys)) :
    MayAgree meet (.mapping k xs m) (.mapping l ys n)

section

variable {meet : Value → Value → Prop}

theorem MayAgree.known_of_no {a b : Value} (agree : MayAgree meet a b) (h : a.compareTo b = .no) :
    a.isUnknown = false ∧ b.isUnknown = false := by
  obtain ⟨left, right⟩ := refined_of_no h
  cases agree with
  | unknown_left unknown present =>
    obtain ⟨refined, null⟩ := left unknown
    exact absurd refined (Bool.eq_false_iff.1 (present null))
  | unknown_right unknown present =>
    obtain ⟨refined, null⟩ := right unknown
    exact absurd refined (Bool.eq_false_iff.1 (present null))
  | _ => exact ⟨rfl, rfl⟩

theorem exists_inside {xs ys : List Value} {clash : Value → Value → Prop}
    (each : ∀ x ∈ xs, ∀ y, MayAgree meet x y → x.compareTo y = .no → Inside clash x y)
    (parts : List.Forall₂ (MayAgree meet) xs ys) (h : compareAll xs ys = .no) :
    ∃ (i : Nat) (x y : Value), xs[i]? = some x ∧ ys[i]? = some y ∧ Inside clash x y := by
  rcases compareAll_eq_no.1 h with longer | ⟨i, x, y, hx, hy, hno⟩
  · exact absurd parts.length_eq longer
  · obtain ⟨y', hy', agree⟩ := forall₂_getElem? parts hx
    cases hy.symm.trans hy'
    exact ⟨i, x, y, hx, hy, each x (List.mem_of_getElem? hx) y agree hno⟩

/-- Values that are called different although nothing tells them apart have parts of different
    types. -/
theorem MayAgree.inside_of_no {a b : Value} (agree : MayAgree meet a b) (h : a.compareTo b = .no) :
    Inside (fun x y => x.ty ≠ y.ty ∧ meet x y) a b := by
  obtain ⟨ka, kb⟩ := agree.known_of_no h
  induction a generalizing b with
  | null t m =>
    cases agree with
    | unknown_left unknown _ => cases unknown
    | unknown_right unknown _ => cases kb.symm.trans unknown
    | null => cases h
  | unknown t r m => cases ka
  | scalar s m =>
    cases agree with
    | unknown_left unknown _ => cases unknown
    | unknown_right unknown _ => cases kb.symm.trans unknown
    | scalar same => simp [compareTo, same] at h
  | sequence k xs m ih =>
    cases agree with
    | unknown_left unknown _ => cases unknown
    | unknown_right unknown _ => cases kb.symm.trans unknown
    | set content => exact absurd h content
    | @ordered _ l _ ys _ n types ordered parts =>
      by_cases same : Value.ty (.sequence k xs m) = Value.ty (.sequence l ys n)
      · rw [compareTo_sequence same ordered] at h
        obtain ⟨i, x, y, hx, hy, part⟩ := exists_inside (fun x hx y agree no =>
          ih x hx agree no (agree.known_of_no no).1 (agree.known_of_no no).2) parts h
        exact .element same ordered hx hy part
      · exact .here ⟨same, types⟩
  | mapping k xs m ih =>
    cases agree with
    | unknown_left unknown _ => cases unknown
    | unknown_right unknown _ => cases kb.symm.trans unknown
    | @mapping _ l _ ys _ n types keys parts =>
      by_cases same : Value.ty (.mapping k xs m) = Value.ty (.mapping l ys n)
      · rw [compareTo_mapping same keys] at h
        obtain ⟨i, x, y, hx, hy, part⟩ := exists_inside (List.forall_mem_map.2 fun x hx y agree no =>
          ih x hx agree no (agree.known_of_no no).1 (agree.known_of_no no).2) parts h
        exact .entry same keys hx hy part
      · exact .here ⟨same, types⟩

end

section

variable {fits : Ty → MarkSet → Value → Prop} {meet : Value → Value → Prop}
  (retyped : ∀ x y x' y', Completes fits x x' → Completes fits y y' → x'.ty = y'.ty → meet x y)

theorem mayAgree_or_alike {a b a' b' : Value} (ha : Completes fits a a') (hb : Completes fits b b')
    (h : a'.compareTo b' ≠ .no) :
    MayAgree meet a b ∨ a.isUnknown = false ∧ b.isUnknown = false ∧ a.shape = b.shape := by
  have alike : a'.shape = b'.shape := by
    by_contra differ
    exact h (compareTo_of_shape_ne ha.isUnknown hb.isUnknown differ)
  have nulls := isNull_of_shape alike
  cases ua : a.isUnknown with
  | true =>
    refine .inl (.unknown_left ua fun null => ?_)
    rw [hb.isNull (isUnknown_of_isNull null), null] at nulls
    exact Bool.eq_false_iff.2 fun refined => Bool.eq_false_iff.1 (ha.present refined) nulls
  | false =>
    cases ub : b.isUnknown with
    | true =>
      refine .inl (.unknown_right ub fun null => ?_)
      rw [ha.isNull ua, null] at nulls
      exact Bool.eq_false_iff.2 fun refined => Bool.eq_false_iff.1 (hb.present refined) nulls.symm
    | false =>
      rw [shape_of_completes ha ua, shape_of_completes hb ub] at alike
      exact .inr ⟨rfl, rfl, alike⟩

theorem parts_mayAgree {xs ys xs' ys' : List Value}
    (each : ∀ x ∈ xs, ∀ y ∈ ys, ∀ x' y', Completes fits x x' → Completes fits y y' →
      x'.compareTo y' ≠ .no → MayAgree meet x y)
    (hx : List.Forall₂ (Completes fits) xs xs') (hy : List.Forall₂ (Completes fits) ys ys')
    (h : compareAll xs' ys' ≠ .no) : List.Forall₂ (MayAgree meet) xs ys := by
  rw [ne_eq, compareAll_eq_no, not_or, not_not] at h
  obtain ⟨len, apart⟩ := h
  rw [← hx.length_eq, ← hy.length_eq] at len
  refine forall₂_of_getElem? len fun i x y hix hiy => ?_
  obtain ⟨x', hix', cx⟩ := forall₂_getElem? hx hix
  obtain ⟨y', hiy', cy⟩ := forall₂_getElem? hy hiy
  exact each x (List.mem_of_getElem? hix) y (List.mem_of_getElem? hiy) x' y' cx cy
    fun no => apart ⟨i, x', y', hix', hiy', no⟩

include retyped

theorem sequence_mayAgree {k l : SequenceKind} {xs ys : List Value} {m n : MarkSet} {a' b' : Value}
    (ca : (sequence k xs m).Canonical) (cb : (sequence l ys n).Canonical)
    (ha : Completes fits (.sequence k xs m) a') (hb : Completes fits (.sequence l ys n) b')
    (each : ∀ x ∈ xs, ∀ y ∈ ys, ∀ x' y', Completes fits x x' → Completes fits y y' →
      x'.compareTo y' ≠ .no → MayAgree meet x y)
    (h : a'.compareTo b' ≠ .no) : MayAgree meet (.sequence k xs m) (.sequence l ys n) := by
  have same : a'.ty = b'.ty := by
    obtain ⟨xs', m', rfl⟩ := ha.exists_sequence
    obtain ⟨ys', n', rfl⟩ := hb.exists_sequence
    exact by_contra fun differ => h (compareTo_of_ty_ne differ)
  have types := retyped _ _ _ _ ha hb same
  obtain ⟨xs', hx, ⟨ordered, rfl⟩ | ⟨e, rfl, rfl⟩⟩ := ha.sequence_cases
  · obtain ⟨ys', hy, ⟨_, rfl⟩ | ⟨e, rfl, rfl⟩⟩ := hb.sequence_cases
    · rw [compareTo_sequence same ordered] at h
      exact .ordered types ordered (parts_mayAgree each hx hy h)
    · cases k with
      | set f => exact absurd rfl (ordered f)
      | _ => cases same
  · obtain ⟨ys', _, ⟨ordered, rfl⟩ | ⟨f, rfl, rfl⟩⟩ := hb.sequence_cases
    · cases l with
      | set f => exact absurd rfl (ordered f)
      | _ => cases same
    · cases same
      refine .set fun no => h ?_
      -- Sets are told apart only when both are wholly known.
      have whole : xs.all isWhollyKnown = true ∧ ys.all isWhollyKnown = true := by
        have same : Value.ty (.sequence (.set e) xs m) = Value.ty (.sequence (.set e) ys n) := rfl
        rw [compareTo_set same] at no
        split at no
        · next whole => simpa using whole
        · cases no
      rwa [ha.eq_of_isWhollyKnown ca (by simpa [isWhollyKnown] using whole.1),
        hb.eq_of_isWhollyKnown cb (by simpa [isWhollyKnown] using whole.2)]

theorem mapping_mayAgree {k l : MappingKind} {xs ys : List (String × Value)} {m n : MarkSet}
    {a' b' : Value} (ha : Completes fits (.mapping k xs m) a')
    (hb : Completes fits (.mapping l ys n) b')
    (each : ∀ x ∈ Dict.values xs, ∀ y ∈ Dict.values ys, ∀ x' y', Completes fits x x' →
      Completes fits y y' → x'.compareTo y' ≠ .no → MayAgree meet x y)
    (h : a'.compareTo b' ≠ .no) : MayAgree meet (.mapping k xs m) (.mapping l ys n) := by
  have types := fun same => retyped _ _ _ _ ha hb same
  cases ha with
  | mapping keysx hx =>
    cases hb with
    | mapping keysy hy =>
      have same := by_contra fun differ => h (compareTo_of_mapping_ty_ne differ)
      have keys := by_contra fun differ => h (compareTo_of_keys_ne differ)
      rw [compareTo_mapping same keys] at h
      exact .mapping (types same) (by rw [← keysx, ← keysy, keys]) (parts_mayAgree each hx hy h)

/-- Values that do not turn out to differ are not told apart by what is known of them. -/
theorem mayAgree_of_completes {a b a' b' : Value} (ca : a.Canonical) (cb : b.Canonical)
    (ha : Completes fits a a') (hb : Completes fits b b') (h : a'.compareTo b' ≠ .no) :
    MayAgree meet a b := by
  induction a generalizing b a' b' with
  | null t m =>
    rcases mayAgree_or_alike ha hb h with agree | ⟨_, _, alike⟩
    · exact agree
    · cases b with
      | null _ _ => exact .null
      | _ => cases alike
  | unknown t r m =>
    rcases mayAgree_or_alike ha hb h with agree | ⟨known, _⟩
    · exact agree
    · cases known
  | scalar s m =>
    rcases mayAgree_or_alike ha hb h with agree | ⟨_, _, alike⟩
    · exact agree
    · cases b with
      | scalar _ _ =>
        cases ha with
        | scalar =>
          cases hb with
          | scalar => exact .scalar (by simpa [compareTo] using h)
      | _ => cases alike
  | sequence k xs m ih =>
    rcases mayAgree_or_alike ha hb h with agree | ⟨_, _, alike⟩
    · exact agree
    · cases b with
      | sequence l ys n =>
        refine sequence_mayAgree retyped ca cb ha hb ?_ h
        cases ca with
        | sequence _ px =>
          cases cb with
          | sequence _ py =>
            exact fun x hx y hy x' y' cx cy hno => ih x hx (px x hx) (py y hy) cx cy hno
      | _ => cases alike
  | mapping k xs m ih =>
    rcases mayAgree_or_alike ha hb h with agree | ⟨_, _, alike⟩
    · exact agree
    · cases b with
      | mapping l ys n =>
        refine mapping_mayAgree retyped ha hb ?_ h
        cases ca with
        | mapping px =>
          cases cb with
          | mapping py =>
            refine List.forall_mem_map.2 fun x hx => List.forall_mem_map.2 fun y hy => ?_
            exact fun x' y' cx cy hno => ih x hx (px x hx) (py y hy) cx cy hno
      | _ => cases alike

end

theorem bool?_equals (a b : Value) :
    (a.equals b).bool? = match a.compareTo b with
      | .yes => some true
      | .no => some false
      | .undecided => none := by
  unfold equals
  cases a.compareTo b <;> rfl

theorem equals_eq_true {a b : Value} : (a.equals b).bool? = some true ↔ a.compareTo b = .yes := by
  rw [bool?_equals]
  cases a.compareTo b <;> simp

theorem equals_eq_false {a b : Value} : (a.equals b).bool? = some false ↔ a.compareTo b = .no := by
  rw [bool?_equals]
  cases a.compareTo b <;> simp

theorem not_inside_of_never {clash : Value → Value → Prop} (never : ∀ x y, ¬ clash x y) {a b : Value} :
    ¬ Inside clash a b := by
  intro h
  induction h with
  | here gap => exact never _ _ gap
  | element _ _ _ _ _ ih => exact ih
  | entry _ _ _ _ _ ih => exact ih

/-- While unknowns keep their types, every definite answer stands. -/
theorem equals_stands {fits : Ty → MarkSet → Value → Prop} (exact : ∀ t m w, fits t m w → w.ty = t)
    {a b a' b' : Value} (ca : a.Canonical) (cb : b.Canonical) (ha : Completes fits a a')
    (hb : Completes fits b b') {answer : Bool} (h : (a.equals b).bool? = some answer) :
    (a'.equals b').bool? = some answer := by
  cases answer with
  | true =>
    rw [equals_eq_true] at h ⊢
    exact compareTo_yes_final ca cb ha hb h
  | false =>
    rw [equals_eq_false] at h ⊢
    by_contra open_
    have kept : ∀ x y x' y', Completes fits x x' → Completes fits y y' → x'.ty = y'.ty →
        x.ty = y.ty := by
      intro x y x' y' hx hy same
      rwa [hx.ty exact, hy.ty exact] at same
    have agree : MayAgree (fun x y => x.ty = y.ty) a b :=
      mayAgree_of_completes kept ca cb ha hb open_
    exact not_inside_of_never (fun x y clash => clash.1 clash.2) (agree.inside_of_no h)

/-- The types that a value may have once its unknowns are resolved. -/
inductive MayHave : Value → Ty → Prop
  | own (v : Value) : MayHave v v.ty
  | unknown {r : Bool} {m : MarkSet} (t : Ty) : MayHave (.unknown .dynamic r m) t
  | tuple {es : List Value} {m : MarkSet} {ts : List Ty} (parts : List.Forall₂ MayHave es ts) :
    MayHave (.sequence .tuple es m) (.tuple ts)
  | object {es : List (String × Value)} {m : MarkSet} {attrs : List (String × Ty)}
    (keys : Dict.keys attrs = Dict.keys es)
    (parts : List.Forall₂ MayHave (Dict.values es) (Dict.values attrs)) :
    MayHave (.mapping .object es m) (.object attrs)

theorem mayHave_of_completes {v v' : Value} (h : Completes FitsType v v') : MayHave v v'.ty := by
  induction v generalizing v' with
  | null t m =>
    cases h with
    | null => exact .own _
  | unknown t r m =>
    cases h with
    | unknown _ _ fit =>
      rcases fit with rfl | rfl
      · exact .unknown _
      · exact .own (.unknown v'.ty r m)
  | scalar s m =>
    cases h with
    | scalar => exact .own _
  | sequence k es m ih =>
    cases h with
    | list _ => exact .own _
    | set _ =>
      rw [ty_withMarks]
      exact .own _
    | tuple parts =>
      simp only [Value.ty, tyAll_eq_map]
      refine .tuple ?_
      rw [List.forall₂_map_right_iff]
      exact forall₂_imp_left (fun v hv w hw => ih v hv hw) parts
  | mapping k es m ih =>
    cases h with
    | @mapping _ _ es' _ keys parts =>
      cases k with
      | map e => exact .own _
      | object =>
        have types : Value.ty (.mapping .object es' m) = .object (Dict.mapValues Value.ty es') := by
          simp [Value.ty, Dict.mapValues]
        rw [types]
        refine .object ?_ ?_
        · rw [Dict.keys_mapValues, keys]
        · rw [Dict.values_mapValues, List.forall₂_map_right_iff]
          exact forall₂_imp_left (List.forall_mem_map.2 fun x hx w hw => ih x hx hw) parts

/-- There is a type that both may have. -/
def TypesMeet (a b : Value) : Prop := ∃ t, MayHave a t ∧ MayHave b t

/-- The types differ so far, and may still turn out to be one. -/
def TypesMayMeet (a b : Value) : Prop := a.ty ≠ b.ty ∧ TypesMeet a b

/-- A definite answer about the equality of two values stands, however their unknowns are resolved,
    except that they may be called different while the types of two parts at one place may meet and
    nothing else that is known of the values tells them apart. -/
theorem equals_final {a b a' b' : Value} (ca : a.Canonical) (cb : b.Canonical)
    (ha : Completes FitsType a a') (hb : Completes FitsType b b') {answer : Bool}
    (h : (a.equals b).bool? = some answer) :
    (a'.equals b').bool? = some answer ∨
      answer = false ∧ Inside TypesMayMeet a b ∧ MayAgree TypesMeet a b := by
  cases answer with
  | true =>
    rw [equals_eq_true] at h ⊢
    exact .inl (compareTo_yes_final ca cb ha hb h)
  | false =>
    rw [equals_eq_false] at h ⊢
    refine or_iff_not_imp_left.2 fun open_ => ?_
    have retyped : ∀ x y x' y', Completes FitsType x x' → Completes FitsType y y' →
        x'.ty = y'.ty → TypesMeet x y :=
      fun x y x' y' hx hy same =>
        ⟨x'.ty, mayHave_of_completes hx, same ▸ mayHave_of_completes hy⟩
    have agree := mayAgree_of_completes retyped ca cb ha hb open_
    exact ⟨rfl, agree.inside_of_no h, agree⟩

def openTuple : Value := .tuple [.dynamic]

def single : Value := .tuple [.int 1]

/-- The open tuple is called different from one that it may turn out to be. -/
theorem equals_openTuple_changes :
    openTuple.Canonical ∧ single.Canonical ∧ Completes FitsType openTuple single ∧
      Completes FitsType single single ∧ (openTuple.equals single).bool? = some false ∧
      (single.equals single).bool? = some true ∧ Inside TypesMayMeet openTuple single ∧
      MayAgree TypesMeet openTuple single := by
  have ca : openTuple.Canonical := .sequence nofun (List.forall_mem_singleton.2 .unknown)
  have cb : single.Canonical := .sequence nofun (List.forall_mem_singleton.2 .scalar)
  have resolved : Completes FitsType openTuple single :=
    .tuple (.cons (.unknown rfl nofun (.inl rfl)) .nil)
  have kept : Completes FitsType single single := .tuple (.cons .scalar .nil)
  have before : (openTuple.equals single).bool? = some false := by decide +kernel
  have after : (single.equals single).bool? = some true := by decide +kernel
  refine ⟨ca, cb, resolved, kept, before, after, ?_⟩
  rcases equals_final ca cb resolved kept before with same | ⟨_, gap⟩
  · rw [after] at same
    cases same
  · exact gap

end Value

end MarkedValues
