import MarkedValues.Proofs.Value.Sameness

/-!
Sameness and identity. Values of the same structure are one value unless numbers in them are equal
without being one number, which only the two zeros are; and a value is the same as itself unless a
number in it is a NaN.
-/
namespace MarkedValues

namespace Number

theorem eq_of_code {a b : Number} (code : a.code = b.code) (sign : a.isNegative = b.isNegative) :
    a = b := by
  have bits : a.bits.toNat = b.bits.toNat := by rw [toNat_bits, toNat_bits, code, sign]
  cases a
  cases b
  exact congrArg Number.mk (UInt64.toNat_inj.1 bits)

theorem eq_or_zeros_of_same {a b : Number} (h : a.same b = true) :
    a = b ∨ a = zero ∧ b = negativeZero ∨ a = negativeZero ∧ b = zero := by
  simp only [same, Bool.and_eq_true, beq_iff_eq] at h
  have value := h.2
  unfold signedCode at value
  cases na : a.isNegative <;> cases nb : b.isNegative <;>
    simp only [na, nb, if_true, Bool.false_eq_true, if_false] at value
  · exact .inl (eq_of_code (by omega) (na.trans nb.symm))
  · exact .inr (.inl ⟨eq_of_code (by omega : a.code = 0) na, eq_of_code (by omega : b.code = 0) nb⟩)
  · exact .inr (.inr ⟨eq_of_code (by omega : a.code = 0) na, eq_of_code (by omega : b.code = 0) nb⟩)
  · exact .inl (eq_of_code (by omega) (na.trans nb.symm))

@[simp] theorem same_self (n : Number) : n.same n = !n.isNaN := by
  simp [same]

theorem less_asymm {a b : Number} (h : a.less b = true) : b.less a = false := by
  simp only [less, Bool.and_eq_true, decide_eq_true_eq] at h
  simp only [less, Bool.and_eq_false_iff, decide_eq_false_iff_not]
  omega

theorem not_less_of_same {a b : Number} (h : a.same b = true) : b.less a = false := by
  simp only [same, Bool.and_eq_true, beq_iff_eq] at h
  simp only [less, Bool.and_eq_false_iff, decide_eq_false_iff_not]
  omega

end Number

namespace Value

mutual

def numbers : Value → List Number
  | .null .. | .unknown .. => []
  | .scalar (.number n) _ => [n]
  | .scalar _ _ => []
  | .sequence _ es _ => numbersOfAll es
  | .mapping _ es _ => numbersOfEntries es

def numbersOfAll : List Value → List Number
  | [] => []
  | v :: vs => v.numbers ++ numbersOfAll vs

def numbersOfEntries : List (String × Value) → List Number
  | [] => []
  | (_, v) :: rest => v.numbers ++ numbersOfEntries rest

end

theorem numbersOfAll_eq (vs : List Value) : numbersOfAll vs = vs.flatMap numbers := by
  induction vs with
  | nil => rfl
  | cons v vs ih => rw [numbersOfAll, ih, List.flatMap_cons]

theorem numbersOfEntries_eq (es : List (String × Value)) :
    numbersOfEntries es = (Dict.values es).flatMap numbers := by
  induction es with
  | nil => rfl
  | cons e es ih =>
    rw [numbersOfEntries, ih]
    rfl

theorem mem_numbers_sequence {k : SequenceKind} {es : List Value} {m : MarkSet} {n : Number} :
    n ∈ (sequence k es m).numbers ↔ ∃ v ∈ es, n ∈ v.numbers := by
  rw [numbers, numbersOfAll_eq, List.mem_flatMap]

theorem mem_numbers_mapping {k : MappingKind} {es : List (String × Value)} {m : MarkSet}
    {n : Number} : n ∈ (mapping k es m).numbers ↔ ∃ v ∈ Dict.values es, n ∈ v.numbers := by
  rw [numbers, numbersOfEntries_eq, List.mem_flatMap]

def holdsNaN (v : Value) : Bool := v.numbers.any Number.isNaN

theorem holdsNaN_sequence (k : SequenceKind) (es : List Value) (m : MarkSet) :
    (sequence k es m).holdsNaN = es.any holdsNaN := by
  rw [holdsNaN, numbers, numbersOfAll_eq, List.any_flatMap]
  rfl

theorem holdsNaN_mapping (k : MappingKind) (es : List (String × Value)) (m : MarkSet) :
    (mapping k es m).holdsNaN = (Dict.values es).any holdsNaN := by
  rw [holdsNaN, numbers, numbersOfEntries_eq, List.any_flatMap]
  rfl

/-- One value holds a zero, the other a zero of the other sign. -/
def ZerosDiffer (v w : Value) : Prop :=
  .zero ∈ v.numbers ∧ .negativeZero ∈ w.numbers ∨ .negativeZero ∈ v.numbers ∧ .zero ∈ w.numbers

theorem zerosDiffer_sequence {k l : SequenceKind} {xs ys : List Value} {m n : MarkSet} {x y : Value}
    (hx : x ∈ xs) (hy : y ∈ ys) (h : ZerosDiffer x y) :
    ZerosDiffer (.sequence k xs m) (.sequence l ys n) := by
  simp only [ZerosDiffer, mem_numbers_sequence]
  exact h.imp (fun both => ⟨⟨x, hx, both.1⟩, y, hy, both.2⟩)
    fun both => ⟨⟨x, hx, both.1⟩, y, hy, both.2⟩

theorem zerosDiffer_mapping {k l : MappingKind} {xs ys : List (String × Value)} {m n : MarkSet}
    {x y : Value} (hx : x ∈ Dict.values xs) (hy : y ∈ Dict.values ys) (h : ZerosDiffer x y) :
    ZerosDiffer (.mapping k xs m) (.mapping l ys n) := by
  simp only [ZerosDiffer, mem_numbers_mapping]
  exact h.imp (fun both => ⟨⟨x, hx, both.1⟩, y, hy, both.2⟩)
    fun both => ⟨⟨x, hx, both.1⟩, y, hy, both.2⟩

theorem eq_or_zerosDiffer_of_scalar {s t : Scalar} {m n : MarkSet} (h : s.same t = true) :
    s = t ∨ ZerosDiffer (.scalar s m) (.scalar t n) := by
  cases s <;> cases t <;> simp only [Scalar.same, beq_iff_eq, Bool.false_eq_true] at h
  · exact .inl (congrArg _ h)
  · rcases Number.eq_or_zeros_of_same h with rfl | ⟨rfl, rfl⟩ | ⟨rfl, rfl⟩
    · exact .inl rfl
    · exact .inr (.inl ⟨List.mem_singleton_self _, List.mem_singleton_self _⟩)
    · exact .inr (.inr ⟨List.mem_singleton_self _, List.mem_singleton_self _⟩)
  · exact .inl (congrArg _ h)

/-- Values of the same structure are one value, but for the sign of zeros. -/
theorem eq_or_zerosDiffer_of_same {x y : Value} (h : x.same y = true) : x = y ∨ ZerosDiffer x y := by
  rw [same_iff] at h
  induction x generalizing y with
  | null t m =>
    cases h
    exact .inl rfl
  | unknown t r m =>
    cases h
    exact .inl rfl
  | scalar s m =>
    cases h with
    | scalar content =>
      exact (eq_or_zerosDiffer_of_scalar content).imp_left fun eq => by rw [eq]
  | sequence k xs m ih =>
    cases h with
    | sequence parts =>
      have each := Lists.forall₂_imp_left (fun x hx y hxy => ih x hx (same_iff.1 hxy)) parts
      rcases Lists.eq_or_exists_of_forall₂ each with rfl | ⟨i, x, y, hx, hy, differ⟩
      · exact .inl rfl
      · exact .inr (zerosDiffer_sequence (List.mem_of_getElem? hx) (List.mem_of_getElem? hy) differ)
  | mapping k xs m ih =>
    cases h with
    | mapping keys parts =>
      have part : ∀ x ∈ Dict.values xs, ∀ y, x.same y = true → x = y ∨ ZerosDiffer x y :=
        List.forall_mem_map.2 fun x hx y hxy => ih x hx (same_iff.1 hxy)
      have each := Lists.forall₂_imp_left part parts
      rcases Lists.eq_or_exists_of_forall₂ each with values | ⟨i, x, y, hx, hy, differ⟩
      · exact .inl (by rw [Dict.ext keys values])
      · exact .inr (zerosDiffer_mapping (List.mem_of_getElem? hx) (List.mem_of_getElem? hy) differ)

/-- A value is the same as itself exactly when it holds no NaN. -/
theorem same_self (v : Value) : v.same v = !v.holdsNaN := by
  induction v with
  | null t m => simp [same, holdsNaN, numbers]
  | unknown t r m => simp [same, holdsNaN, numbers]
  | scalar s m => cases s <;> simp [same, Scalar.same, holdsNaN, numbers]
  | sequence k es m ih =>
    rw [Bool.eq_iff_iff, holdsNaN_sequence, Bool.not_eq_true', List.any_eq_false]
    simp only [same, sameAll_iff, List.forall₂_same, beq_self_eq_true, Bool.true_and, Bool.and_true]
    exact forall₂_congr fun v hv => by rw [ih v hv, Bool.not_eq_true', Bool.not_eq_true]
  | mapping k es m ih =>
    have each : ∀ v ∈ Dict.values es, v.same v = !v.holdsNaN := List.forall_mem_map.2 ih
    rw [Bool.eq_iff_iff, holdsNaN_mapping, Bool.not_eq_true', List.any_eq_false]
    simp only [same, sameEntries_iff, List.forall₂_same, beq_self_eq_true, Bool.true_and,
      Bool.and_true, true_and]
    exact forall₂_congr fun v hv => by rw [each v hv, Bool.not_eq_true', Bool.not_eq_true]

end Value

end MarkedValues
