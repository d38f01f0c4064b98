import MarkedValues.Proofs.Call.Delivery
import MarkedValues.Proofs.Call.Primitives
import MarkedValues.Proofs.Call.Table
import MarkedValues.Proofs.Standard.Soundness.Collections
import MarkedValues.Proofs.Value.Unmarked

/-!
Merging. The types of the arguments are put together in one fold and their values in another, and
both keep the last entry of a key. Arguments that are null have no say in either.
-/
namespace MarkedValues.Standard

open Outcomes
open Value (ConvertedEntry)

variable {engine : Regex.Engine}

/-- An unmarked map or object, known or null, with its entries in the order of their keys. -/
structure Mergeable (a : Value) : Prop where
  kind : a.ty.isMapping = true
  known : a.isUnknown = false
  unmarked : a.Unmarked
  sorted : a.entries.Sorted

theorem Mergeable.null {t : Ty} (kind : t.isMapping = true) : Mergeable (.null t ∅) :=
  ⟨kind, rfl, rfl, .nil⟩

theorem Mergeable.mapping {a : Value} (h : Mergeable a) (present : a.isNull = false) :
    ∃ k es m, a = .mapping k es m :=
  Value.exists_mapping_of_ty present h.known h.kind

def present (args : List Value) : List Value := args.filter fun a => !a.isNull

theorem filter_present (args : List Value) :
    (present args).filter (fun a => !a.isNull) = args.filter fun a => !a.isNull := by
  simp [present]

/-- The second list is the first with nulls of map and object types put in between. -/
inductive WithNulls : List Value → List Value → Prop
  | nil : WithNulls [] []
  | keep {a : Value} {args args' : List Value} : WithNulls args args' →
    WithNulls (a :: args) (a :: args')
  | insert {t : Ty} {args args' : List Value} : t.isMapping = true → WithNulls args args' →
    WithNulls args (.null t ∅ :: args')

theorem WithNulls.present_eq {args args' : List Value} (h : WithNulls args args') :
    present args' = present args := by
  induction h with
  | nil => rfl
  | @keep a args args' _ ih =>
    rw [present, present, List.filter_cons, List.filter_cons]
    exact congrArg (fun rest => if (!a.isNull) = true then a :: rest else rest) ih
  | insert _ _ ih => exact ih

theorem WithNulls.mergeable {args args' : List Value} (h : WithNulls args args')
    (each : ∀ a ∈ args, Mergeable a) : ∀ a ∈ args', Mergeable a := by
  induction h with
  | nil => exact each
  | keep _ ih =>
    obtain ⟨here, behind⟩ := List.forall_mem_cons.1 each
    exact List.forall_mem_cons.2 ⟨here, ih behind⟩
  | insert kind _ ih => exact List.forall_mem_cons.2 ⟨.null kind, ih each⟩

/-- The value under the key in the last argument that is not null and has the key. -/
def LastUnder (args : List Value) (k : String) (u : Value) : Prop :=
  ∃ before a after, args = before ++ a :: after ∧ (a.isNull = false ∧ a.entries.lookup k = some u) ∧
    ∀ b ∈ after, b.isNull = false → b.entries.lookup k = none

theorem entries_of_isNull {a : Value} (null : a.isNull = true) : a.entries = [] := by
  cases a with
  | null t m => rfl
  | _ => cases null

theorem lastUnder_iff {args : List Value} {k : String} {u : Value} :
    LastUnder args k u ↔ args.reverse.findSome? (fun a => a.entries.lookup k) = some u := by
  rw [Lists.findSome?_reverse_eq_some_iff]
  constructor
  · rintro ⟨before, a, after, split, ⟨_, found⟩, none⟩
    refine ⟨before, a, after, split, found, fun b hb => ?_⟩
    cases null : b.isNull with
    | false => exact none b hb null
    | true => rw [entries_of_isNull null, List.lookup_nil]
  · rintro ⟨before, a, after, split, found, none⟩
    refine ⟨before, a, after, split, ⟨?_, found⟩, fun b hb _ => none b hb⟩
    cases null : a.isNull with
    | false => rfl
    | true =>
      rw [entries_of_isNull null] at found
      cases found

theorem flatMap_entries_present (args : List Value) :
    (present args).flatMap Value.entries = args.flatMap Value.entries := by
  induction args with
  | nil => rfl
  | cons a args ih =>
    rw [present, List.filter_cons]
    cases null : a.isNull with
    | false => exact congrArg (a.entries ++ ·) ih
    | true =>
      rw [List.flatMap_cons, entries_of_isNull null]
      exact ih

/-- The values of a map are converted to its element type, those of an object stay as they are. -/
def MergedAs : MappingKind → Value → Value → Prop
  | .map e, u, w => Value.convert u e = .ok w
  | .object, u, w => w = u

/-- The value is a map or object of the kind. It has the keys of all arguments that are not null,
    and under each of them the value of the last that has the key. -/
structure MergeOf (args : List Value) (kind : MappingKind) (v : Value) : Prop where
  content : ∃ entries, v = .mapping kind entries ∅
  sorted : v.entries.Sorted
  keys : ∀ k, k ∈ v.entries.keys ↔ ∃ a ∈ args, a.isNull = false ∧ k ∈ a.entries.keys
  last : ∀ k w, v.entries.lookup k = some w ↔ ∃ u, LastUnder args k u ∧ MergedAs kind u w

def merged (args : List Value) : Dict Value := Dict.ofList (args.flatMap Value.entries)

theorem sorted_merged (args : List Value) : (merged args).Sorted := Dict.sorted_ofList _

theorem mem_keys_merged {args : List Value} {k : String} :
    k ∈ (merged args).keys ↔ ∃ a ∈ args, a.isNull = false ∧ k ∈ a.entries.keys := by
  rw [merged, Dict.ofList, Dict.mem_keys_insertAll, ← flatMap_entries_present]
  simp only [Dict.keys, List.map_nil, List.not_mem_nil, or_false, List.map_flatMap,
    List.mem_flatMap, present, List.mem_filter, Bool.not_eq_true', and_assoc]

theorem lookup_merged {args : List Value} (each : ∀ a ∈ args, Mergeable a) {k : String} {u : Value} :
    (merged args).lookup k = some u ↔ LastUnder args k u := by
  rw [merged, Dict.lookup_ofList_flatMap fun a ha => (each a ha).sorted, lastUnder_iff]

theorem convertedEntries_of_convertValues {e : Ty} {es ws : Dict Value}
    (h : convertValues e es = .ok ws) : List.Forall₂ (ConvertedEntry e) es ws := by
  induction es generalizing ws with
  | nil =>
    cases h
    exact .nil
  | cons x es ih =>
    rw [convertValues, List.mapM_cons] at h
    obtain ⟨y, first, h⟩ := bind_eq_ok.1 h
    obtain ⟨ys, rest, h⟩ := bind_eq_ok.1 h
    obtain ⟨w, converted, heq⟩ := bind_eq_ok.1 first
    cases h
    cases heq
    exact .cons ⟨rfl, mapError_eq_ok.1 converted⟩ (ih rest)

theorem lookup_of_convertedEntries {t : Ty} {es ws : Dict Value}
    (h : List.Forall₂ (ConvertedEntry t) es ws) {k : String} {w : Value} :
    ws.lookup k = some w ↔ ∃ u, es.lookup k = some u ∧ Value.convert u t = .ok w := by
  induction h with
  | nil => simp
  | @cons x y es ws entry _ ih =>
    obtain ⟨l, u⟩ := x
    obtain ⟨l', w'⟩ := y
    obtain ⟨rfl, converted⟩ := entry
    by_cases same : k = l
    · rw [same, Dict.lookup_cons_self, Dict.lookup_cons_self]
      constructor
      · intro found
        cases found
        exact ⟨u, rfl, converted⟩
      · rintro ⟨_, found, converted'⟩
        cases found
        cases converted.symm.trans converted'
        rfl
    · rw [Dict.lookup_cons_of_ne same, Dict.lookup_cons_of_ne same]
      exact ih

section

variable {args : List Value} (each : ∀ a ∈ args, Mergeable a)

include each

theorem mergeOf_object : MergeOf args .object (.object (merged args)) where
  content := ⟨_, rfl⟩
  sorted := Dict.sorted_ofList _
  keys k := by
    have entries : (Value.object (merged args)).entries = merged args :=
      Dict.ofList_of_sorted (sorted_merged args)
    rw [entries, mem_keys_merged]
  last k w := by
    have entries : (Value.object (merged args)).entries = merged args :=
      Dict.ofList_of_sorted (sorted_merged args)
    rw [entries, lookup_merged each]
    simp [MergedAs]

theorem mergeOf_map {e : Ty} {ws : Dict Value} (h : convertValues e (merged args) = .ok ws) :
    MergeOf args (.map e) (.map e ws) := by
  have converted := convertedEntries_of_convertValues h
  have keys : ws.keys = (merged args).keys := Value.keys_of_convertedEntries converted
  have entries : (Value.map e ws).entries = ws :=
    Dict.ofList_of_sorted ((sorted_merged args).of_keys_eq keys)
  refine ⟨⟨_, rfl⟩, Dict.sorted_ofList _, fun k => ?_, fun k w => ?_⟩
  · rw [entries, keys, mem_keys_merged]
  · rw [entries, lookup_of_convertedEntries converted]
    simp only [lookup_merged each, MergedAs]

theorem firstNoMapping_eq_none : firstNoMapping args = none := by
  refine (find?_numbered_eq_none
    (p := fun v : Value => !(v.ty.isDynamic || v.ty.isMapping))).2 fun a ha => ?_
  rw [(each a ha).kind, Bool.or_true, Bool.not_true]

theorem mergeType_present : mergeType (present args) = mergeType args := by
  have kept : ∀ a ∈ present args, Mergeable a := fun a ha => each a (List.mem_of_mem_filter ha)
  unfold mergeType
  rw [firstNoMapping_eq_none each, firstNoMapping_eq_none kept, filter_present]

theorem mergeType_of_unify {e : Ty} (maps : (present args).all (·.ty.isMap) = true)
    (common : Ty.unify ((present args).map (·.ty.elementType)) = some e) :
    mergeType args = .ok (.map e) := by
  unfold mergeType
  rw [firstNoMapping_eq_none each]
  dsimp only
  rw [show args.filter (fun v => !v.isNull) = present args from rfl, if_pos maps, common]

/-- The rule promises a map, or an object with the types of all entries. -/
theorem mergeType_cases {ret : Ty} (h : mergeType args = .ok ret) :
    (∃ e, ret = .map e) ∨ ret = (Value.object (merged args)).ty := by
  have known : ∀ a ∈ present args, ∃ k es m, a = .mapping k es m := by
    intro a ha
    obtain ⟨mem, given⟩ := List.mem_filter.1 ha
    exact (each a mem).mapping (by simpa using given)
  unfold mergeType at h
  split at h
  · cases h
  · dsimp only at h
    split at h
    · next e _ =>
      cases h
      exact .inl ⟨e, rfl⟩
    · rw [show args.filter (fun v => !v.isNull) = present args from rfl,
        attributeTypes_of_handed known] at h
      cases h
      rw [merged, ← flatMap_entries_present, ty_mergedObject]
      exact .inr rfl

theorem call_merge (ctx : Context) :
    (table engine).call ctx "merge" args =
      merge.resolveType args >>= fun ret => merge.finish ret ∅ (mergeBody ctx args ret) := by
  have handed : ∀ a ∈ args,
      Param.HandsOver { name := "maps", ty := .dynamic, allow := { null := true } } a a := by
    intro a ha
    have kind := (each a ha).kind
    refine ⟨(each a ha).unmarked, fun _ => rfl, fun dynamic => ?_, ?_, Value.convert_of_same (.inl rfl)⟩
    · rw [dynamic] at kind
      cases kind
    · simp [(each a ha).known]
  rw [standardTable_call merge rfl, Function.call_of_rest (f := merge) rfl rfl handed]
  rfl

theorem mergeOf_call {ctx : Context} {v : Value}
    (call : (table engine).call ctx "merge" args = .ok v) : ∃ kind, MergeOf args kind v := by
  rw [call_merge each] at call
  obtain ⟨ret, type, done⟩ := bind_eq_ok.1 call
  have rule : mergeType args = .ok ret := mapError_eq_ok.1 type
  have entries : Dict.ofList ((args.filter fun a => !a.isNull).flatMap Value.entries) = merged args :=
    congrArg Dict.ofList (flatMap_entries_present args)
  rcases mergeType_cases each rule with ⟨e, rfl⟩ | rfl
  · have body : mergeBody ctx args (.map e) =
        (convertValues e (merged args) >>= fun ws => .ok (.map e ws)) := by
      rw [mergeBody, entries]
    rw [body, Function.finish_eq_ok_iff] at done
    · obtain ⟨ws, converted, heq⟩ := bind_eq_ok.1 done
      cases heq
      exact ⟨.map e, mergeOf_map each converted⟩
    · intro w hw
      obtain ⟨ws, _, heq⟩ := bind_eq_ok.1 hw
      cases heq
      exact ⟨rfl, rfl, rfl⟩
  · have body : mergeBody ctx args (Value.object (merged args)).ty = .ok (.object (merged args)) :=
      congrArg (fun es => Except.ok (Value.object es)) entries
    rw [body, Function.finish_eq_ok_iff] at done
    · cases done
      exact ⟨.object, mergeOf_object each⟩
    · intro w hw
      cases hw
      exact ⟨rfl, rfl, rfl⟩

end

theorem mergeBody_present (ctx : Context) (args : List Value) (ret : Ty) :
    mergeBody ctx (present args) ret = mergeBody ctx args ret := by
  unfold mergeBody
  rw [filter_present]

theorem WithNulls.call_eq {args args' : List Value} (h : WithNulls args args')
    (each : ∀ a ∈ args, Mergeable a) (ctx : Context) :
    (table engine).call ctx "merge" args' = (table engine).call ctx "merge" args := by
  have each' := h.mergeable each
  have type : merge.resolveType args' = merge.resolveType args := by
    change (mergeType args').mapError _ = (mergeType args).mapError _
    rw [← mergeType_present each, ← mergeType_present each', h.present_eq]
  have body (ret : Ty) : mergeBody ctx args' ret = mergeBody ctx args ret := by
    rw [← mergeBody_present ctx args, ← mergeBody_present ctx args', h.present_eq]
  rw [call_merge each, call_merge each', type]
  simp only [body]

/-- Merging prefers what comes last, and nulls among the arguments change nothing. -/
theorem merge_prefers_last (ctx : Context) {args : List Value} (each : ∀ a ∈ args, Mergeable a)
    {v : Value} (call : (table engine).call ctx "merge" args = .ok v) :
    (∃ kind, MergeOf args kind v) ∧
      ∀ args', WithNulls args args' → (table engine).call ctx "merge" args' = .ok v :=
  ⟨mergeOf_call each call, fun _ nulls => (nulls.call_eq each ctx).trans call⟩

def mixedMaps : List Value :=
  [.map .bool [("a", .bool true), ("b", .bool false)], .nullOf (.object [("c", .number)]),
    .map .string [("b", .string "x")]]

def mixedMerged : Value := .map .string [("a", .string "true"), ("b", .string "x")]

theorem mixedMaps_merged :
    (∀ a ∈ mixedMaps, Mergeable a) ∧ standardTable.call {} "merge" mixedMaps = .ok mixedMerged ∧
      (∃ kind, MergeOf mixedMaps kind mixedMerged) ∧
      WithNulls mixedMaps (.nullOf (.map .number) :: mixedMaps) ∧
      standardTable.call {} "merge" (.nullOf (.map .number) :: mixedMaps) = .ok mixedMerged := by
  have each : ∀ a ∈ mixedMaps, Mergeable a := by
    have sorted (entries : List (String × Value)) : (Dict.ofList entries).Sorted :=
      Dict.sorted_ofList entries
    refine List.forall_mem_cons.2 ⟨⟨rfl, rfl, rfl, sorted _⟩,
      List.forall_mem_cons.2 ⟨.null rfl, List.forall_mem_singleton.2 ⟨rfl, rfl, rfl, sorted _⟩⟩⟩
  have call : standardTable.call {} "merge" mixedMaps = .ok mixedMerged := by
    have common : Ty.unify [.bool, .string] = some .string := by decide +kernel
    have type : merge.resolveType mixedMaps = .ok (.map .string) :=
      Function.resolveType_of_rule (f := merge) rfl (mergeType_of_unify each rfl common)
    rw [call_merge each, type]
    rfl
  have nulls : WithNulls mixedMaps (.nullOf (.map .number) :: mixedMaps) :=
    .insert rfl (.keep (.keep (.keep .nil)))
  obtain ⟨merged, ignored⟩ := merge_prefers_last {} each call
  exact ⟨each, call, merged, nulls, ignored _ nulls⟩

end MarkedValues.Standard
