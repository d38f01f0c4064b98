import MarkedValues.Proofs.Standard.SetAlgebra

/-!
Lengths while values are not known yet. How long a tuple or an object is stands in its type, and
what the elements of a list or a map turn out to be does not change how many they are. The elements
of a set may merge when they are resolved, so a set with unknowns in it may still become shorter.
-/
namespace MarkedValues

variable {engine : Regex.Engine}

namespace Value

@[simp] theorem number?_withMarks (v : Value) (m : MarkSet) : (v.withMarks m).number? = v.number? := by
  cases v with
  | scalar s => cases s <;> rfl
  | _ => rfl

theorem elementCount?_erase (v : Value) : v.erase.elementCount? = v.elementCount? := by
  cases v <;> simp [Value.erase, elementCount?, elements?, entries?]

end Value

namespace Standard

open Outcomes
open Value (Completes KeptBehind)

theorem lengthOf_erase (v : Value) : lengthOf v.erase = lengthOf v := by
  rw [lengthOf, Value.ty_erase, Value.string?_erase, Value.elementCount?_erase]
  rfl

@[simp] theorem lengthOf_sequence (k : SequenceKind) (es : List Value) (m : MarkSet) :
    lengthOf (.sequence k es m) = some es.length := by
  cases k <;> simp [lengthOf, Value.ty, Value.elementCount?, Value.elements?]

@[simp] theorem lengthOf_mapping (k : MappingKind) (es : List (String × Value)) (m : MarkSet) :
    lengthOf (.mapping k es m) = some es.length := by
  cases k <;> simp [lengthOf, Value.ty, Value.elementCount?, Value.elements?, Value.entries?]

theorem countable_of_lengthOf {v : Value} {k : Nat} (h : lengthOf v = some k) :
    v.ty ≠ .number ∧ v.ty ≠ .bool := by
  constructor
  all_goals
    intro type
    rw [lengthOf, type] at h
    cases v with
    | sequence k => cases k <;> cases type
    | mapping k => cases k <;> cases type
    | _ => cases h

def GivesNumber (t : FunctionTable) (ctx : Context) (name : String) (args : List Value)
    (n : Number) : Prop :=
  ∃ v, t.call ctx name args = .ok v ∧ v.number? = some n

def lengthParam : Param :=
  { name := "value", ty := .dynamic, allow := { unknown := true, dynamicType := true } }

def lengthOutcome (a : Value) : Outcome Value :=
  match lengthOf a with
  | some n => .ok (.int n)
  | none => .ok (.unknownOf .number)

theorem receive_lengthParam {a : Value} (present : a.isNull = false) :
    lengthParam.receive 0 a = .ok ⟨[a.erase], a.allMarks, false, false⟩ := by
  have same : Value.convert a.erase .dynamic = .ok a.erase := Value.convert_of_same (.inl rfl)
  simp only [Param.receive_eq, Param.strip, Param.taken, lengthParam, present, same, Bool.false_and,
    Bool.and_false, Bool.not_true, Bool.false_eq_true, if_false]

theorem call_length (ctx : Context) {a : Value} (present : a.isNull = false) :
    length.call ctx [a] = (length.resolveType [a.erase] >>= fun ret =>
      length.finish ret a.allMarks (lengthOutcome a)) := by
  have body (ret : Ty) : length.body ctx [a.erase] ret = lengthOutcome a := by
    rw [lengthOutcome, ← lengthOf_erase a]
    rfl
  rw [Function.call_single (p := lengthParam) rfl rfl, receive_lengthParam present]
  simp only [bind, Except.bind, Bool.false_eq_true, if_false, body]

theorem call_length_null (ctx : Context) {a : Value} (null : a.isNull = true) :
    length.call ctx [a] = .error ((CallError.mustNotBeNull.atArgument 0).atParameter "value") := by
  rw [Function.call_single (p := lengthParam) rfl rfl, Param.receive_eq, null]
  rfl

theorem resolveType_length {a : Value} {ret : Ty} :
    length.resolveType [a] = .ok ret ↔ (a.ty ≠ .number ∧ a.ty ≠ .bool) ∧ ret = .number := by
  have first : argument [a] 0 = a := rfl
  change (lengthType [a]).mapError length.annotate = .ok ret ↔ _
  rw [mapError_eq_ok, lengthType, first]
  cases a.ty <;> simp [eq_comm, blame]

theorem finish_length {a v : Value} :
    length.finish .number a.allMarks (lengthOutcome a) = .ok v ↔
      v = ((lengthOf a).elim (.unknownOf .number) (Value.int ·)).withMarks a.allMarks := by
  have conform : length.conform ((lengthOf a).elim (.unknownOf .number) (Value.int ·)) .number =
      .ok ((lengthOf a).elim (.unknownOf .number) (Value.int ·)) := by
    cases lengthOf a <;> rfl
  have outcome : lengthOutcome a = .ok ((lengthOf a).elim (.unknownOf .number) (Value.int ·)) := by
    rw [lengthOutcome]
    cases lengthOf a <;> rfl
  rw [Function.finish, outcome]
  change (length.conform _ _ >>= _) = _ ↔ _
  rw [conform]
  change Except.ok _ = Except.ok _ ↔ _
  rw [Except.ok.injEq, eq_comm]

/-- A known length is given to whatever has one, and only to that. -/
theorem givesNumber_length_iff {ctx : Context} {a : Value} {n : Number} :
    GivesNumber (table engine) ctx "length" [a] n ↔
      a.isNull = false ∧ ∃ k : Nat, lengthOf a = some k ∧ n = .ofInt k := by
  rw [GivesNumber, standardTable_call length rfl]
  cases null : a.isNull with
  | true => simp [call_length_null ctx null]
  | false =>
    simp only [call_length ctx null, bind_eq_ok, resolveType_length, Value.ty_erase]
    constructor
    · rintro ⟨v, ⟨ret, ⟨_, rfl⟩, finished⟩, number⟩
      rw [finish_length.1 finished, Value.number?_withMarks] at number
      cases counted : lengthOf a with
      | none =>
        rw [counted] at number
        cases number
      | some k =>
        rw [counted] at number
        exact ⟨trivial, k, rfl, (Option.some.inj number).symm⟩
    · rintro ⟨_, k, counted, rfl⟩
      refine ⟨_, ⟨.number, ⟨countable_of_lengthOf counted, rfl⟩, finish_length.2 rfl⟩, ?_⟩
      rw [Value.number?_withMarks, counted]
      rfl

/-- An unknown turns out to be something of its type other than null. -/
def PresentOfType (t : Ty) (_ : MarkSet) (w : Value) : Prop :=
  (t = .dynamic ∨ w.ty = t) ∧ w.isNull = false

/-- However the values are resolved, no two of them turn out the same. -/
def StayApart (es : List Value) : Prop :=
  es.Pairwise fun a b => ∀ a' b', Completes PresentOfType a a' → Completes PresentOfType b b' →
    a'.erase.same b'.erase = false

section

variable {v v' : Value}

theorem isNull_of_completes (h : Completes PresentOfType v v') (present : v.isNull = false) :
    v'.isNull = false := by
  cases h with
  | unknown _ _ fit => exact fit.2
  | set _ => rw [Value.isNull_withMarks]; rfl
  | _ => exact present

theorem lengthOf_of_completes (h : Completes PresentOfType v v') {k : Nat}
    (length : lengthOf v = some k) (other : ∀ e es m, v ≠ .sequence (.set e) es m) :
    lengthOf v' = some k := by
  cases h with
  | null => exact length
  | @unknown t r m _ _ _ fit =>
    -- The length stands in the type.
    obtain ⟨rfl | type, _⟩ := fit
    · cases length
    · rw [lengthOf, type]
      cases t <;> first | exact length | cases length
  | scalar => exact length
  | list parts =>
    rw [lengthOf_sequence] at length ⊢
    rw [← parts.length_eq, length]
  | set _ => exact absurd rfl (other _ _ _)
  | tuple parts =>
    rw [lengthOf_sequence] at length ⊢
    rw [← parts.length_eq, length]
  | mapping keys _ =>
    rw [lengthOf_mapping] at length ⊢
    have count := congrArg List.length keys
    rw [Dict.keys, Dict.keys, List.length_map, List.length_map] at count
    rw [count, length]

/-- The length of a set after it has been resolved: shorter unless its elements stay apart. -/
theorem length_resolved_set {es es' : List Value}
    (completed : List.Forall₂ (Completes PresentOfType) es es') :
    (Value.normalize (es'.map Value.erase)).length ≤ es.length ∧
      ((Value.normalize (es'.map Value.erase)).length = es.length ↔
        (Value.sort (es'.map Value.erase)).IsChain KeptBehind) := by
  have count : (es'.map Value.erase).length = es.length := by
    rw [List.length_map, completed.length_eq]
  rw [← count]
  exact ⟨Value.length_normalize_le _, Value.length_normalize_eq_iff⟩

theorem isChain_of_stayApart {es es' : List Value} (apart : StayApart es)
    (completed : List.Forall₂ (Completes PresentOfType) es es') :
    (Value.sort (es'.map Value.erase)).IsChain KeptBehind := by
  have pairwise : (es'.map Value.erase).Pairwise fun a b => a.same b = false := by
    rw [List.pairwise_map]
    induction completed with
    | nil => exact .nil
    | @cons a a' rest rest' first later ih =>
      obtain ⟨here, apart⟩ := List.pairwise_cons.1 apart
      refine .cons (fun b' hb' => ?_) (ih apart)
      obtain ⟨b, hb, completes⟩ := Lists.exists_of_mem_right later hb'
      exact here b hb a' b' first completes
  have symm {a b : Value} (h : a.same b = false) : b.same a = false := by
    rw [Bool.eq_false_iff] at h ⊢
    exact fun same => h (Value.same_symm same)
  apply ((Value.perm_sort _).symm.pairwise pairwise symm).isChain.imp
  intro a b apart
  rw [KeptBehind, symm apart, Bool.and_false]

end

/-- However a value's unknowns turn out, its known length stays, except that a set may lose
    elements; it keeps its length exactly if none of them merges into the one before it in canonical
    order, as when no two of them can turn out the same. -/
theorem length_after_completion (ctx : Context) {v v' : Value} {n : Number}
    (completes : Completes PresentOfType v v') (given : GivesNumber (table engine) ctx "length" [v] n) :
    ((∀ e es m, v = .sequence (.set e) es m → StayApart es) →
      GivesNumber (table engine) ctx "length" [v'] n) ∧
    ∀ e es es' m, v = .sequence (.set e) es m → List.Forall₂ (Completes PresentOfType) es es' →
      v' = (Value.set e es').withMarks m →
      ∃ k : Nat, GivesNumber (table engine) ctx "length" [v'] (.ofInt k) ∧ n = .ofInt es.length ∧
        k ≤ es.length ∧
        (k = es.length ↔ (Value.sort (es'.map Value.erase)).IsChain KeptBehind) := by
  obtain ⟨present, k, counted, rfl⟩ := givesNumber_length_iff.1 given
  have present' := isNull_of_completes completes present
  have content (e : Ty) (es' : List Value) (m : MarkSet) :
      lengthOf ((Value.set e es').withMarks m) =
        some (Value.normalize (es'.map Value.erase)).length := lengthOf_sequence ..
  constructor
  · intro apart
    apply givesNumber_length_iff.2
    refine ⟨present', k, ?_, rfl⟩
    by_cases isSet : ∃ e es m, v = .sequence (.set e) es m
    · obtain ⟨e, es, m, rfl⟩ := isSet
      obtain ⟨es', completed, ⟨other, _⟩ | ⟨_, same, rfl⟩⟩ := completes.sequence_cases
      · exact absurd rfl (other e)
      · cases same
        have chain := isChain_of_stayApart (apart e es m rfl) completed
        rw [content, (length_resolved_set completed).2.2 chain, ← counted, lengthOf_sequence]
    · exact lengthOf_of_completes completes counted fun e es m eq => isSet ⟨e, es, m, eq⟩
  · rintro e es es' m rfl completed rfl
    rw [lengthOf_sequence] at counted
    obtain ⟨fewer, exact_⟩ := length_resolved_set completed
    exact ⟨_, givesNumber_length_iff.2 ⟨present', _, content e es' m, rfl⟩,
      by rw [Option.some.inj counted], fewer, exact_⟩

def openList : Value := .sequence (.list .string) [.string "a", .unknownOf .string] ∅

/-- The list has two elements whatever the second turns out to be, the set has one when it turns out
    to be the first. -/
theorem open_set_shrinks :
    Completes PresentOfType openSet mergedSet ∧
      Completes PresentOfType openList (.stringList ["a", "a"]) ∧
      GivesNumber standardTable {} "length" [openSet] (.ofInt 2) ∧
      (∃ k : Nat, k < 2 ∧ GivesNumber standardTable {} "length" [mergedSet] (.ofInt k)) ∧
      GivesNumber standardTable {} "length" [openList] (.ofInt 2) ∧
      GivesNumber standardTable {} "length" [.stringList ["a", "a"]] (.ofInt 2) := by
  have parts : List.Forall₂ (Completes PresentOfType) [.string "a", .unknownOf .string]
      [.string "a", .string "a"] := .cons .scalar (.cons (.unknown rfl nofun ⟨.inr rfl, rfl⟩) .nil)
  have set : Completes PresentOfType openSet mergedSet := .set (e := .string) (m := ∅) parts
  have list : Completes PresentOfType openList (.stringList ["a", "a"]) := .list parts
  have two : GivesNumber standardTable {} "length" [openSet] (.ofInt 2) :=
    givesNumber_length_iff.2 ⟨rfl, 2, rfl, rfl⟩
  have two' : GivesNumber standardTable {} "length" [openList] (.ofInt 2) :=
    givesNumber_length_iff.2 ⟨rfl, 2, rfl, rfl⟩
  obtain ⟨stays, _⟩ := length_after_completion {} list two'
  obtain ⟨_, shrinks⟩ := length_after_completion {} set two
  obtain ⟨k, given, _, bound, whole⟩ := shrinks .string _ _ ∅ rfl parts rfl
  have merged : k ≠ 2 := by
    intro all
    cases whole.1 all with
    | cons_cons kept _ =>
      have same : true = false := kept
      cases same
  exact ⟨set, list, two, ⟨k, Nat.lt_of_le_of_ne bound merged, given⟩, two', stays nofun⟩

end Standard

end MarkedValues
