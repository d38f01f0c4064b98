import MarkedValues.Proofs.Call.Delivery
import MarkedValues.Proofs.Call.Table
import MarkedValues.Proofs.Standard.Passing
import MarkedValues.Proofs.Standard.Soundness.Collections
import MarkedValues.Proofs.Value.Knowledge

/-!
Flattening. A leaf stands at a place, an index for each level on the way to it, and the leaves in
the order of their places are what a sequence is flattened to. The tuple of them is flat, and
sequences flattened together are those flattened apart, one behind the other.
-/
namespace MarkedValues.Standard

open Outcomes

variable {engine : Regex.Engine}

/-- Following the indices one comes to this part, which is no known list, set or tuple. -/
inductive LeafAt : Value → List Nat → Value → Prop
  | here {l : Value} : l.elements? = none → LeafAt l [] l
  | inside {v w l : Value} {vs : List Value} {i : Nat} {p : List Nat} :
    v.elements? = some vs → vs[i]? = some w → LeafAt w p l → LeafAt v (i :: p) l

def LeafIn (i : Nat) (vs : List Value) (p : List Nat) (l : Value) : Prop :=
  ∃ j w q, p = (i + j) :: q ∧ vs[j]? = some w ∧ LeafAt w q l

/-- All leaves with their places, in the order of the places. -/
structure Enumerates (leafAt : List Nat → Value → Prop) (found : List (List Nat × Value)) : Prop where
  ascending : found.Pairwise fun a b => a.1 < b.1
  complete : ∀ p l, (p, l) ∈ found ↔ leafAt p l

def Enumerable (leafAt : List Nat → Value → Prop) (ls : List Value) : Prop :=
  ∃ found, Enumerates leafAt found ∧ found.map Prod.snd = ls

theorem leaves_of_leaf {l : Value} (leaf : l.elements? = none) : leaves l = [l] := by
  cases l with
  | sequence k es m => cases leaf
  | _ => rw [leaves]; simp

theorem enumerable_leaf {l : Value} (leaf : l.elements? = none) :
    Enumerable (LeafAt l) (leaves l) := by
  refine ⟨[([], l)], ⟨List.pairwise_singleton _ _, fun p u => ?_⟩, (leaves_of_leaf leaf).symm⟩
  constructor
  · intro mem
    cases List.mem_singleton.1 mem
    exact .here leaf
  · intro here
    cases here with
    | here _ => exact List.mem_singleton_self _
    | inside content _ _ => cases leaf.symm.trans content

theorem leafIn_nil {i : Nat} {p : List Nat} {l : Value} : ¬ LeafIn i [] p l := by
  rintro ⟨j, w, q, _, hw, _⟩
  cases hw

theorem leafIn_cons {i : Nat} {v : Value} {vs : List Value} {p : List Nat} {l : Value} :
    LeafIn i (v :: vs) p l ↔ (∃ q, p = i :: q ∧ LeafAt v q l) ∨ LeafIn (i + 1) vs p l := by
  constructor
  · rintro ⟨j, w, q, rfl, hw, leaf⟩
    cases j with
    | zero =>
      cases hw
      exact .inl ⟨q, rfl, leaf⟩
    | succ j => exact .inr ⟨j, w, q, by rw [Nat.add_right_comm, Nat.add_assoc], hw, leaf⟩
  · rintro (⟨q, rfl, leaf⟩ | ⟨j, w, q, rfl, hw, leaf⟩)
    · exact ⟨0, v, q, rfl, rfl, leaf⟩
    · exact ⟨j + 1, w, q, by rw [Nat.add_right_comm, Nat.add_assoc], hw, leaf⟩

theorem Enumerates.cons {i : Nat} {v : Value} {vs : List Value}
    {first later : List (List Nat × Value)} (here : Enumerates (LeafAt v) first)
    (behind : Enumerates (LeafIn (i + 1) vs) later) :
    Enumerates (LeafIn i (v :: vs)) (first.map (fun x => (i :: x.1, x.2)) ++ later) := by
  constructor
  · refine List.pairwise_append.2 ⟨List.pairwise_map.2 ?_, behind.ascending, ?_⟩
    · refine here.ascending.imp fun less => ?_
      exact List.cons_lt_cons_iff.2 (.inr ⟨rfl, less⟩)
    · rintro a ha ⟨p, l⟩ hb
      obtain ⟨x, _, rfl⟩ := List.mem_map.1 ha
      obtain ⟨j, w, q, rfl, _, _⟩ := (behind.complete p l).1 hb
      exact List.cons_lt_cons_iff.2 (.inl (by omega))
  · intro p l
    rw [List.mem_append, leafIn_cons, behind.complete]
    refine or_congr_left ?_
    simp only [List.mem_map, Prod.mk.injEq, Prod.exists, here.complete]
    constructor
    · rintro ⟨q, u, leaf, rfl, rfl⟩
      exact ⟨q, rfl, leaf⟩
    · rintro ⟨q, rfl, leaf⟩
      exact ⟨q, l, leaf, rfl, rfl⟩

theorem enumerable_leavesOfAll {vs : List Value} (each : ∀ v ∈ vs, Enumerable (LeafAt v) (leaves v))
    (i : Nat) : Enumerable (LeafIn i vs) (leavesOfAll vs) := by
  induction vs generalizing i with
  | nil => exact ⟨[], ⟨.nil, fun p l => iff_of_false List.not_mem_nil leafIn_nil⟩, rfl⟩
  | cons v vs ih =>
    obtain ⟨here, behind⟩ := List.forall_mem_cons.1 each
    obtain ⟨first, enumerated, firstLeaves⟩ := here
    obtain ⟨later, others, laterLeaves⟩ := ih behind (i + 1)
    refine ⟨_, enumerated.cons others, ?_⟩
    rw [List.map_append, List.map_map, leavesOfAll, ← firstLeaves, ← laterLeaves]
    rfl

theorem leafAt_sequence {k : SequenceKind} {vs : List Value} {m : MarkSet} {p : List Nat}
    {l : Value} : LeafAt (.sequence k vs m) p l ↔ LeafIn 0 vs p l := by
  constructor
  · intro leaf
    cases leaf with
    | here none => cases none
    | inside content hw below =>
      cases content
      exact ⟨_, _, _, by rw [Nat.zero_add], hw, below⟩
  · rintro ⟨j, w, q, rfl, hw, leaf⟩
    rw [Nat.zero_add]
    exact .inside rfl hw leaf

/-- What `leaves` gives are the leaves in the order of their places. -/
theorem enumerable_leaves (v : Value) : Enumerable (LeafAt v) (leaves v) := by
  induction v with
  | sequence k vs m ih =>
    obtain ⟨found, enumerated, same⟩ := enumerable_leavesOfAll ih 0
    exact ⟨found, ⟨enumerated.ascending, fun p l =>
      (enumerated.complete p l).trans leafAt_sequence.symm⟩, same⟩
  | _ => exact enumerable_leaf rfl

theorem elements?_of_mem_leaves {v : Value} : ∀ l ∈ leaves v, l.elements? = none := by
  induction v with
  | sequence k vs m ih =>
    intro l hl
    rw [leaves, leavesOfAll_eq_flatMap] at hl
    obtain ⟨w, hw, hl⟩ := List.mem_flatMap.1 hl
    exact ih w hw l hl
  | _ =>
    intro l hl
    rw [leaves_of_leaf rfl, List.mem_singleton] at hl
    rw [hl]
    rfl

theorem leavesOfAll_leaves (v : Value) : leavesOfAll (leaves v) = leaves v := by
  rw [leavesOfAll_eq_flatMap,
    List.flatMap_congr fun l hl => leaves_of_leaf (elements?_of_mem_leaves l hl)]
  exact List.flatMap_singleton' _

theorem isWhollyKnown_leaves {v : Value} (whole : v.isWhollyKnown = true) :
    ∀ l ∈ leaves v, l.isWhollyKnown = true := by
  induction v with
  | sequence k vs m ih =>
    intro l hl
    rw [leaves, leavesOfAll_eq_flatMap] at hl
    obtain ⟨w, hw, hl⟩ := List.mem_flatMap.1 hl
    exact ih w hw (Value.isWhollyKnown_sequence.1 whole w hw) l hl
  | _ =>
    intro l hl
    rw [leaves_of_leaf rfl, List.mem_singleton] at hl
    rwa [hl]

structure Flattenable (x : Value) : Prop where
  kind : x.ty.isSequence = true
  present : x.isNull = false
  whole : x.isWhollyKnown = true
  unmarked : x.Unmarked

namespace Flattenable

variable {x : Value}

theorem isUnknown (h : Flattenable x) : x.isUnknown = false :=
  Value.Completes.isUnknown_of_isWhollyKnown h.whole

theorem sequence (h : Flattenable x) : ∃ k vs, x = .sequence k vs ∅ := by
  obtain ⟨k, vs, m, rfl⟩ := Value.exists_sequence_of_ty h.present h.isUnknown h.kind
  obtain ⟨rfl, _⟩ := Value.unmarked_sequence.1 h.unmarked
  exact ⟨k, vs, rfl⟩

theorem tuple {vs : List Value} (whole : ∀ v ∈ vs, v.isWhollyKnown = true)
    (unmarked : ∀ v ∈ vs, v.Unmarked) : Flattenable (.tuple vs) where
  kind := by rw [ty_tuple]; rfl
  present := rfl
  whole := Value.isWhollyKnown_sequence.2 whole
  unmarked := Value.unmarked_tuple.2 unmarked

theorem flat (h : Flattenable x) : Flattenable (.tuple (leaves x)) :=
  .tuple (isWhollyKnown_leaves h.whole) (leaves_unmarked h.unmarked)

end Flattenable

theorem call_flatten (ctx : Context) {x : Value} (h : Flattenable x) :
    (table engine).call ctx "flatten" [x] = .ok (.tuple (leaves x)) := by
  obtain ⟨k, vs, rfl⟩ := h.sequence
  have delivers : flatten.Delivers 0 [.sequence k vs ∅] [.sequence k vs ∅] :=
    .cons rfl (Param.handsOver_self h.unmarked rfl rfl (.inl rfl)) (.nil 1)
  have whole := h.whole
  have type : flatten.resolveType [.sequence k vs ∅] =
      .ok (.tuple ((leavesOfAll vs).map Value.ty)) := by
    have first : argument [.sequence k vs ∅] 0 = .sequence k vs ∅ := rfl
    have rule : flattenType [.sequence k vs ∅] = .ok (.tuple ((leavesOfAll vs).map Value.ty)) := by
      simp only [flattenType, first, h.kind, whole, Bool.not_true, Bool.false_eq_true, if_false]
      rfl
    exact Function.resolveType_of_rule (f := flatten) rfl rule
  have body : flatten.body ctx [.sequence k vs ∅] (.tuple ((leavesOfAll vs).map Value.ty)) =
      .ok (.tuple (leavesOfAll vs)) := if_pos whole
  rw [standardTable_call flatten rfl, leaves]
  exact delivers.call_eq_ok rfl type body
    (Function.finish_of_conform (Function.conform_of_ty (ty_tuple _) rfl rfl))

theorem call_concat_tuples (ctx : Context) {vss : List (List Value)} (nonempty : vss ≠ [])
    (unmarked : ∀ vs ∈ vss, ∀ v ∈ vs, v.Unmarked) :
    (table engine).call ctx "concat" (vss.map Value.tuple) = .ok (.tuple vss.flatten) := by
  have fits : firstNoSequence (vss.map Value.tuple) = none := by
    refine (find?_numbered_eq_none (p := fun v : Value => !(v.ty.isList || v.ty.isTuple))).2 ?_
    refine List.forall_mem_map.2 fun vs _ => ?_
    rw [ty_tuple]
    rfl
  have types : allSome ((vss.map Value.tuple).map elementTypesOf) =
      some (vss.map fun vs => vs.map Value.ty) := by
    rw [← Ty.allSome_map_some, List.map_map]
    congr 1
    refine List.map_congr_left fun vs _ => ?_
    simp only [Function.comp_apply, elementTypesOf, ty_tuple]
  have noLists : (vss.map Value.tuple).all (·.ty.isList) = false := by
    obtain ⟨vs, rest, rfl⟩ := List.exists_cons_of_ne_nil nonempty
    rw [List.map_cons, List.all_cons, ty_tuple]
    rfl
  have type : concat.resolveType (vss.map Value.tuple) =
      .ok (.tuple (vss.flatten.map Value.ty)) := by
    have rule : concatType (vss.map Value.tuple) = .ok (.tuple (vss.flatten.map Value.ty)) := by
      have given : (vss.map Value.tuple).isEmpty = false := by simpa using nonempty
      simp only [concatType, given, fits, noLists, types, Bool.false_eq_true, if_false]
      rw [List.map_flatten]
    exact Function.resolveType_of_rule (f := concat) rfl rule
  have body : concat.body ctx (vss.map Value.tuple) (.tuple (vss.flatten.map Value.ty)) =
      .ok (.tuple vss.flatten) := by
    change Except.ok (Value.tuple ((vss.map Value.tuple).flatMap Value.elements)) = _
    rw [List.flatMap_map]
    exact congrArg (fun vs => Except.ok (Value.tuple vs)) List.flatMap_id
  have each : ∀ a ∈ vss.map Value.tuple, Param.HandsOver { name := "seqs", ty := .dynamic } a a :=
    List.forall_mem_map.2 fun vs hvs =>
      Param.handsOver_self (Value.unmarked_tuple.2 (unmarked vs hvs)) rfl rfl (.inl rfl)
  rw [standardTable_call concat rfl, Function.call_of_rest (f := concat) rfl rfl each, type]
  simp only [bind, Except.bind, body]
  exact Function.finish_of_conform (Function.conform_of_ty (ty_tuple _) rfl rfl)

/-- Flattening gives the leaves in the order of their places, with their types. Flattening once
    more changes nothing, and a tuple of sequences is flattened to what they are flattened to,
    one behind the other. -/
theorem flatten_depends_on_leaves (ctx : Context) :
    (∀ x, Flattenable x → ∃ found r, Enumerates (LeafAt x) found ∧
      (table engine).call ctx "flatten" [x] = .ok r ∧ r = .tuple (found.map Prod.snd) ∧
      r.ty = .tuple (found.map fun leaf => leaf.2.ty) ∧
      (table engine).call ctx "flatten" [r] = .ok r) ∧
    (∀ xs, xs ≠ [] → (∀ x ∈ xs, Flattenable x) → ∃ rs r,
      List.Forall₂ (fun x r => (table engine).call ctx "flatten" [x] = .ok r) xs rs ∧
      (table engine).call ctx "flatten" [.tuple xs] = .ok r ∧
      (table engine).call ctx "concat" rs = .ok r) := by
  constructor
  · intro x h
    obtain ⟨found, enumerated, same⟩ := enumerable_leaves x
    refine ⟨found, .tuple (leaves x), enumerated, call_flatten ctx h, by rw [same], ?_, ?_⟩
    · rw [ty_tuple, ← same, List.map_map]
      rfl
    · have again := @call_flatten engine ctx _ h.flat
      rwa [Value.tuple, leaves, leavesOfAll_leaves] at again
  · intro xs nonempty each
    have whole : Flattenable (.tuple xs) :=
      .tuple (fun x hx => (each x hx).whole) fun x hx => (each x hx).unmarked
    have parts : leaves (.tuple xs) = (xs.map leaves).flatten := by
      rw [Value.tuple, leaves, leavesOfAll_eq_flatMap, List.flatMap_def]
    refine ⟨(xs.map leaves).map .tuple, .tuple (leaves (.tuple xs)), ?_, call_flatten ctx whole, ?_⟩
    · rw [List.map_map]
      refine List.forall₂_map_right_iff.2 (List.forall₂_same.2 fun x hx => ?_)
      exact call_flatten ctx (each x hx)
    · rw [parts]
      refine call_concat_tuples ctx (by simpa using nonempty) ?_
      exact List.forall_mem_map.2 fun x hx => leaves_unmarked (each x hx).unmarked

def nested : Value :=
  .tuple [.list (.set .string) [.sequence (.set .string) [.string "a", .string "b"] ∅],
    .nullOf (.list .string), .tuple [], .string "c"]

def nestedLeaves : Value := .tuple [.string "a", .string "b", .nullOf (.list .string), .string "c"]

theorem nested_flattened :
    Flattenable nested ∧ (∀ x ∈ [.stringList ["z"], nested], Flattenable x) ∧
      standardTable.call {} "flatten" [nested] = .ok nestedLeaves ∧
      (∃ found, Enumerates (LeafAt nested) found ∧ nestedLeaves = .tuple (found.map Prod.snd)) ∧
      nestedLeaves.ty = .tuple [.string, .string, .list .string, .string] ∧
      standardTable.call {} "flatten" [nestedLeaves] = .ok nestedLeaves ∧
      ∃ r, standardTable.call {} "flatten" [.tuple [.stringList ["z"], nested]] = .ok r ∧
        standardTable.call {} "concat" [.tuple [.string "z"], nestedLeaves] = .ok r := by
  have one : Flattenable nested := ⟨rfl, rfl, rfl, rfl⟩
  have both : ∀ x ∈ [.stringList ["z"], nested], Flattenable x :=
    List.forall_mem_cons.2 ⟨⟨rfl, rfl, rfl, rfl⟩, List.forall_mem_singleton.2 one⟩
  have call : standardTable.call {} "flatten" [nested] = .ok nestedLeaves := by
    rw [standardTable_call flatten rfl]
    rfl
  have callText : standardTable.call {} "flatten" [.stringList ["z"]] =
      .ok (.tuple [.string "z"]) := by
    rw [standardTable_call flatten rfl]
    rfl
  obtain ⟨alone, together⟩ := flatten_depends_on_leaves {}
  obtain ⟨found, r, enumerated, flat, leaves, _, again⟩ := alone nested one
  obtain ⟨rs, u, apart, whole, joined⟩ := together [.stringList ["z"], nested] nofun both
  cases flat.symm.trans call
  obtain ⟨s, _, first, behind, rfl⟩ := List.forall₂_cons_left_iff.1 apart
  obtain ⟨t, _, second, none, rfl⟩ := List.forall₂_cons_left_iff.1 behind
  cases none
  cases first.symm.trans callText
  cases second.symm.trans call
  exact ⟨one, both, call, ⟨found, enumerated, leaves⟩, rfl, again, u, whole, joined⟩

end MarkedValues.Standard
