import MarkedValues.Proofs.Call.Delivery
import MarkedValues.Proofs.Standard.MarkFlow
import MarkedValues.Proofs.Standard.Soundness.Collections
import MarkedValues.Proofs.Value.Converted

/-!
Maps and objects taken apart and put together again. `keysOf` and `valuesOf` say what the parts are:
for a map two lists, for an object two tuples. Each of the four functions is followed as far as
these, and then with marks around them.
-/
namespace MarkedValues.Standard

open Outcomes
open Value (HasElementType)

variable {engine : Regex.Engine}

/-- A known map or object with its entries in the order of their keys. The values in a map have its
    element type, unless that is open. -/
structure Separable (m : Value) : Prop where
  kind : m.ty.isMapping = true
  present : m.isNull = false
  known : m.isUnknown = false
  sorted : m.entries.Sorted
  typed : ∀ e, m.ty = .map e → ∀ x ∈ m.entries, HasElementType x.2.ty e

theorem Separable.erase {m : Value} (h : Separable m) : Separable m.erase := by
  have entries : m.erase.entries = Dict.mapValues Value.erase m.entries := by
    cases m with
    | mapping k es s =>
      change Value.eraseEntries es = _
      rw [Value.eraseEntries_eq_map]
      rfl
    | _ => rfl
  refine ⟨?_, ?_, ?_, ?_, fun e type => ?_⟩
  · rw [Value.ty_erase, h.kind]
  · rw [Value.isNull_erase, h.present]
  · rw [Value.isUnknown_erase, h.known]
  · rw [entries]
    exact h.sorted.of_keys_eq (Dict.keys_mapValues _ _)
  · rw [Value.ty_erase] at type
    rw [entries]
    refine List.forall_mem_map.2 fun x hx => ?_
    rw [Value.ty_erase]
    exact h.typed e type x hx

theorem Separable.mapping {m : Value} (h : Separable m) (unmarked : m.Unmarked) :
    ∃ k es, m = .mapping k es ∅ := by
  obtain ⟨k, es, s, rfl⟩ := Value.exists_mapping_of_ty h.present h.known h.kind
  obtain ⟨rfl, _⟩ := Value.unmarked_mapping.1 unmarked
  exact ⟨k, es, rfl⟩

def keysOf : MappingKind → Dict Value → Value
  | .map _, es => .stringList (Dict.keys es)
  | .object, es => .tuple ((Dict.keys es).map .string)

def valuesOf : MappingKind → Dict Value → Value
  | .map e, es => .list e (Dict.values es)
  | .object, es => .tuple (Dict.values es)

variable {kind : MappingKind} {es : Dict Value}

theorem elements_keysOf (kind : MappingKind) (es : Dict Value) :
    (keysOf kind es).elements = (Dict.keys es).map .string := by
  cases kind <;> rfl

theorem elements_valuesOf (kind : MappingKind) (es : Dict Value) :
    (valuesOf kind es).elements = Dict.values es := by
  cases kind <;> rfl

theorem unmarked_keysOf (kind : MappingKind) (es : Dict Value) : (keysOf kind es).Unmarked := by
  cases kind <;> simp [keysOf]

theorem unmarked_valuesOf (kind : MappingKind) (clean : ∀ x ∈ es, x.2.Unmarked) :
    (valuesOf kind es).Unmarked := by
  have each : ∀ v ∈ Dict.values es, v.Unmarked := List.forall_mem_map.2 clean
  cases kind with
  | map e => exact Value.unmarked_list.2 each
  | object => exact Value.unmarked_tuple.2 each

theorem ty_mapping_object (es : Dict Value) (m : MarkSet) :
    (Value.mapping .object es m).ty = .object (Dict.mapValues Value.ty es) := by
  rw [Value.ty, Value.tyEntries_eq_map]
  rfl

theorem zip_keys_values (es : Dict Value) : (Dict.keys es).zip (Dict.values es) = es :=
  (List.zip_of_prod rfl rfl).symm

theorem stringsFrom_strings (place : Nat) (ss : List String) :
    stringsFrom place (ss.map .string) = .ok ss := by
  induction ss generalizing place with
  | nil => rfl
  | cons s ss ih =>
    rw [List.map_cons, stringsFrom]
    change (stringsFrom (place + 1) (ss.map .string) >>= fun rest => .ok (s :: rest)) = _
    rw [ih]
    rfl

theorem convertAll_of_same {vs : List Value} {t : Ty} (same : ∀ v ∈ vs, v.ty = t) (i : Nat) :
    Value.convertAll vs i t = .ok vs := by
  induction vs generalizing i with
  | nil => rfl
  | cons v vs ih =>
    obtain ⟨here, behind⟩ := List.forall_mem_cons.1 same
    rw [Value.convertAll, Value.convert_of_same (.inr here), ih behind]
    rfl

theorem convert_keysOf (kind : MappingKind) (es : Dict Value) :
    Value.convert (keysOf kind es) (.list .string) = .ok (.stringList (Dict.keys es)) := by
  cases kind with
  | map e => exact Value.convert_of_same (.inr rfl)
  | object =>
    have differ : ¬ (Ty.list .string = .dynamic ∨ (keysOf .object es).ty = .list .string) := by
      rw [keysOf, ty_tuple]
      rintro (h | h) <;> cases h
    have target : Ty.conversionType (keysOf .object es).ty (.list .string) =
        some (.list .string) := by
      have each : ((Dict.keys es).map Value.string).map Value.ty =
          (Dict.keys es).map fun _ => Ty.string := by
        rw [List.map_map]
        rfl
      have all : ((Dict.keys es).map fun _ => Ty.string).all
          (fun f => (Ty.conversionType f .string).isSome) = true := by
        rw [List.all_map, List.all_eq_true]
        exact fun _ _ => rfl
      rw [keysOf, ty_tuple, each, Ty.conversionType, Ty.elementTarget]
      simp only [all]
      rfl
    have strings : ∀ v ∈ (Dict.keys es).map Value.string, v.ty = .string :=
      List.forall_mem_map.2 fun _ _ => rfl
    rw [Value.convert_of_ne differ, target]
    simp only [keysOf, Value.tuple, Value.convertTo, convertAll_of_same strings, bind, Except.bind,
      Value.withMarks_empty]
    rfl

theorem keysType_mapping (kind : MappingKind) (es : Dict Value) :
    keysType [.mapping kind es ∅] = .ok (keysOf kind es).ty := by
  cases kind with
  | map e => rfl
  | object =>
    have first : (argument [.mapping .object es ∅] 0).ty = .object (Dict.mapValues Value.ty es) :=
      ty_mapping_object es ∅
    have type : (keysOf .object es).ty =
        .tuple ((Dict.mapValues Value.ty es).map fun _ => .string) := by
      rw [keysOf, ty_tuple, Dict.mapValues, Dict.keys, List.map_map, List.map_map, List.map_map]
      rfl
    rw [type, keysType, requireMapping, first]
    rfl

theorem valuesType_mapping (kind : MappingKind) (es : Dict Value) :
    valuesType [.mapping kind es ∅] = .ok (valuesOf kind es).ty := by
  cases kind with
  | map e => rfl
  | object =>
    have first : (argument [.mapping .object es ∅] 0).ty = .object (Dict.mapValues Value.ty es) :=
      ty_mapping_object es ∅
    rw [valuesOf, ty_tuple, ← Dict.values_mapValues, valuesType, requireMapping, first]
    rfl

theorem zipmapType_parts (kind : MappingKind) (es : Dict Value) (sorted : es.Sorted) :
    zipmapType [.stringList (Dict.keys es), valuesOf kind es] = .ok (Value.mapping kind es ∅).ty := by
  cases kind with
  | map e => rfl
  | object =>
    have second : (argument [.stringList (Dict.keys es), valuesOf .object es] 1).ty =
        .tuple ((Dict.values es).map Value.ty) := ty_tuple _
    have known : ((Dict.keys es).map Value.string).all Value.isKnown = true := by
      rw [List.all_map, List.all_eq_true]
      exact fun _ _ => rfl
    have attrs : Ty.objectOf (Dict.mapValues Value.ty es) = (Value.mapping .object es ∅).ty := by
      rw [ty_mapping_object, Ty.objectOf,
        Dict.ofList_of_sorted (sorted.of_keys_eq (Dict.keys_mapValues _ _))]
    have zipped := zip_of_stringsFrom (stringsFrom_strings 0 (Dict.keys es))
      ((Dict.values es).map Value.ty)
    rw [← mapValues_zip, zip_keys_values] at zipped
    rw [zipmapType, second]
    change (if ((Dict.keys es).map Value.string).all Value.isKnown then
      Except.ok (Ty.objectOf _) else _) = _
    rw [if_pos known, zipped, attrs]

/-- The value under a key is of the type that is promised for it, unless that is open. -/
theorem lookupType_mapping {k : String} {v : Value}
    (typed : ∀ e, kind = .map e → ∀ x ∈ es, HasElementType x.2.ty e) (found : es.lookup k = some v) :
    ∃ ret, lookupType [.mapping kind es ∅, .string k] = .ok ret ∧ HasElementType v.ty ret := by
  cases kind with
  | map e => exact ⟨e, rfl, typed e rfl _ (Dict.mem_of_lookup found)⟩
  | object =>
    refine ⟨v.ty, ?_, .inr rfl⟩
    have first : (argument [.mapping .object es ∅, .string k] 0).ty =
        .object (Dict.mapValues Value.ty es) := ty_mapping_object es ∅
    have attr : (Dict.mapValues Value.ty es).lookup k = some v.ty := by
      rw [Dict.lookup_mapValues, found]
      rfl
    rw [lookupType, requireMapping, first]
    change Except.ok (((((Dict.mapValues Value.ty es).lookup k).or none)).getD .dynamic) = _
    rw [attr]
    rfl

section

variable (ctx : Context) (clean : ∀ x ∈ es, x.2.Unmarked)

include clean

theorem handsOver_mapping {p : Param} (open_ : p.ty = .dynamic) :
    p.HandsOver (.mapping kind es ∅) (.mapping kind es ∅) :=
  Param.handsOver_self (Value.unmarked_mapping.2 ⟨rfl, clean⟩) rfl rfl (.inl open_)

theorem call_keys :
    (table engine).call ctx "keys" [.mapping kind es ∅] = .ok (keysOf kind es) := by
  have delivers : keys.Delivers 0 [.mapping kind es ∅] [.mapping kind es ∅] :=
    .cons rfl (handsOver_mapping clean rfl) (.nil 1)
  rw [standardTable_call keys rfl]
  refine delivers.call_eq_ok rfl
    (Function.resolveType_of_rule (f := keys) rfl (keysType_mapping kind es)) ?_ ?_
  · cases kind <;> rfl
  · refine Function.finish_of_conform (Function.conform_of_ty rfl ?_ ?_) <;> cases kind <;> rfl

theorem call_values :
    (table engine).call ctx "values" [.mapping kind es ∅] = .ok (valuesOf kind es) := by
  have delivers : values.Delivers 0 [.mapping kind es ∅] [.mapping kind es ∅] :=
    .cons rfl (handsOver_mapping clean rfl) (.nil 1)
  rw [standardTable_call values rfl]
  refine delivers.call_eq_ok rfl
    (Function.resolveType_of_rule (f := values) rfl (valuesType_mapping kind es)) ?_ ?_
  · cases kind <;> rfl
  · refine Function.finish_of_conform (Function.conform_of_ty rfl ?_ ?_) <;> cases kind <;> rfl

theorem call_lookup {k : String} {v : Value}
    (typed : ∀ e, kind = .map e → ∀ x ∈ es, HasElementType x.2.ty e) (found : es.lookup k = some v) :
    (table engine).call ctx "lookup" [.mapping kind es ∅, .string k] = .ok v := by
  obtain ⟨ret, rule, type⟩ := lookupType_mapping typed found
  have delivers : lookup.Delivers 0 [.mapping kind es ∅, .string k] [.mapping kind es ∅, .string k] :=
    .cons rfl (handsOver_mapping clean rfl)
      (.cons rfl (Param.handsOver_self rfl rfl rfl (.inr rfl)) (.nil 2))
  have body : lookupBody ctx [.mapping kind es ∅, .string k] ret = .ok v := by
    have text : textAt [.mapping kind es ∅, .string k] 1 = .ok k := rfl
    have first : (argument [.mapping kind es ∅, .string k] 0).entries = es := rfl
    simp only [lookupBody, text, first, found, bind, Except.bind]
    exact mapError_eq_ok.2 (Value.convert_of_same type)
  rw [standardTable_call lookup rfl]
  exact delivers.call_eq_ok rfl (Function.resolveType_of_rule (f := lookup) rfl rule) body
    (Function.finish_of_same rfl type)

theorem call_zipmap (sorted : es.Sorted) :
    (table engine).call ctx "zipmap" [keysOf kind es, valuesOf kind es] =
      .ok (.mapping kind es ∅) := by
  have names : Param.HandsOver { name := "keys", ty := .list .string } (keysOf kind es)
      (.stringList (Dict.keys es)) := by
    refine ⟨unmarked_keysOf kind es, ?_, ?_, ?_, convert_keysOf kind es⟩ <;> cases kind <;> nofun
  have delivers : zipmap.Delivers 0 [keysOf kind es, valuesOf kind es]
      [.stringList (Dict.keys es), valuesOf kind es] := by
    refine .cons rfl names (.cons rfl (Param.handsOver_self (unmarked_valuesOf kind clean) ?_ ?_
      (.inl rfl)) (.nil 2)) <;> cases kind <;> rfl
  have body : zipmapBody ctx [.stringList (Dict.keys es), valuesOf kind es]
      (Value.mapping kind es ∅).ty = .ok (.mapping kind es ∅) := by
    have first : (argument [.stringList (Dict.keys es), valuesOf kind es] 0).elements =
        (Dict.keys es).map .string := rfl
    have second : (argument [.stringList (Dict.keys es), valuesOf kind es] 1).elements =
        Dict.values es := elements_valuesOf kind es
    have length : ((Dict.keys es).map Value.string).length = (Dict.values es).length := by
      rw [List.length_map, Dict.keys, Dict.values, List.length_map, List.length_map]
    have known : ((Dict.keys es).map Value.string).all Value.isKnown = true := by
      rw [List.all_map, List.all_eq_true]
      exact fun _ _ => rfl
    simp only [zipmapBody, first, second, length, known, stringsFrom_strings, zip_keys_values, ne_eq,
      not_true_eq_false, if_false, Bool.not_true, Bool.false_eq_true]
    have same (k : MappingKind) : Value.mapping k (Dict.ofList es) ∅ = .mapping k es ∅ := by
      rw [Dict.ofList_of_sorted sorted]
    cases kind with
    | map e => exact congrArg Except.ok (same (.map e))
    | object => exact congrArg Except.ok (same .object)
  rw [standardTable_call zipmap rfl]
  refine delivers.call_eq_ok rfl
    (Function.resolveType_of_rule (f := zipmap) rfl (zipmapType_parts kind es sorted)) body ?_
  exact Function.finish_of_conform (Function.conform_of_ty rfl rfl rfl)

end

/-- What a call gives for arguments without marks, it gives for marked ones with the marks around
    it. -/
theorem call_carries {name : String} {f : Function}
    (found : (functions engine).reverse.find? (fun g => name == g.name) = some f)
    (strict : refusesMarks f = true) {ctx : Context} {args plain : List Value} {marks : MarkSet}
    {v : Value} (erased : args.map Value.erase = plain) (all : Value.marksOfAll args = marks)
    (call : (table engine).call ctx name plain = .ok v) :
    (table engine).call ctx name args = .ok (v.withMarks marks) := by
  rw [standardTable_call f found] at call ⊢
  rw [Function.call_of_takesNoMarks (takesNoMarks_of_refusesMarks strict), erased, all, call]
  rfl

/-- The calls take the mapping apart into the keys and the values of the content, put these together
    to the content again and find each value under the key at its place. `around` is what goes
    around each result, and may be around a key too. -/
def ComesApart (t : FunctionTable) (ctx : Context) (m content : Value) (around : Value → Value) :
    Prop :=
  ∃ ks vs,
    (t.call ctx "keys" [content] = .ok ks ∧
      t.call ctx "values" [content] = .ok vs) ∧
    (t.call ctx "keys" [m] = .ok (around ks) ∧
      t.call ctx "values" [m] = .ok (around vs)) ∧
    t.call ctx "zipmap" [around ks, around vs] = .ok (around content) ∧
    (ks.elements.length = content.entries.length ∧
      vs.elements.length = content.entries.length) ∧
    ∀ (i : Nat) key value, ks.elements[i]? = some key → vs.elements[i]? = some value →
      t.call ctx "lookup" [m, key] = .ok (around value) ∧
        t.call ctx "lookup" [m, around key] = .ok (around value)

theorem lookup_at (sorted : es.Sorted) {i : Nat} {key value : Value}
    (hk : (keysOf kind es).elements[i]? = some key)
    (hv : (valuesOf kind es).elements[i]? = some value) :
    ∃ k, key = .string k ∧ es.lookup k = some value := by
  rw [elements_keysOf, Dict.keys, List.map_map, List.getElem?_map, Option.map_eq_some_iff] at hk
  rw [elements_valuesOf, Dict.values, List.getElem?_map, Option.map_eq_some_iff] at hv
  obtain ⟨x, here, rfl⟩ := hk
  obtain ⟨y, here', rfl⟩ := hv
  cases here.symm.trans here'
  exact ⟨x.1, rfl, Dict.lookup_of_mem sorted (List.mem_of_getElem? here)⟩

theorem lengths_of_parts (kind : MappingKind) (es : Dict Value) :
    (keysOf kind es).elements.length = es.length ∧
      (valuesOf kind es).elements.length = es.length := by
  rw [elements_keysOf, elements_valuesOf, Dict.keys, Dict.values]
  simp only [List.length_map, and_self]

theorem comesApart_unmarked (ctx : Context) {m : Value} (h : Separable m) (unmarked : m.Unmarked) :
    ComesApart (table engine) ctx m m id := by
  obtain ⟨kind, es, rfl⟩ := h.mapping unmarked
  have clean := (Value.unmarked_mapping.1 unmarked).2
  have typed : ∀ e, kind = .map e → ∀ x ∈ es, HasElementType x.2.ty e :=
    fun e map => h.typed e (by rw [map]; rfl)
  have apart := And.intro (@call_keys engine kind es ctx clean)
    (@call_values engine kind es ctx clean)
  refine ⟨keysOf kind es, valuesOf kind es, apart, apart, call_zipmap ctx clean h.sorted,
    lengths_of_parts kind es, fun i key value hk hv => ?_⟩
  obtain ⟨k, rfl, found⟩ := lookup_at h.sorted hk hv
  have there := @call_lookup engine kind es ctx clean k value typed found
  exact ⟨there, there⟩

theorem comesApart_marked (ctx : Context) {m : Value} (h : Separable m) :
    ComesApart (table engine) ctx m m.erase (·.withMarks m.allMarks) := by
  obtain ⟨ks, vs, ⟨callKeys, callValues⟩, _, zipped, lengths, there⟩ :=
    @comesApart_unmarked engine ctx _ h.erase (Value.unmarked_erase m)
  have erased : ∀ a ∈ [m.erase], a.Unmarked := by simp
  have cleanKeys : ks.Unmarked := by
    rw [standardTable_call keys rfl] at callKeys
    exact Function.unmarked_call (takesNoMarks_of_refusesMarks rfl) keys_unmarked erased callKeys
  have cleanValues : vs.Unmarked := by
    rw [standardTable_call values rfl] at callValues
    exact Function.unmarked_call (takesNoMarks_of_refusesMarks rfl) values_unmarked erased callValues
  have around {v : Value} (clean : v.Unmarked) :
      (v.withMarks m.allMarks).erase = v ∧ (v.withMarks m.allMarks).allMarks = m.allMarks := by
    rw [Value.erase_withMarks, Value.erase_eq_self clean, Value.allMarks_withMarks,
      show v.allMarks = ∅ from clean, MarkSet.empty_union]
    exact ⟨rfl, rfl⟩
  have alone : Value.marksOfAll [m] = m.allMarks := MarkSet.union_empty _
  refine ⟨ks, vs, ⟨callKeys, callValues⟩, ⟨?_, ?_⟩, ?_, lengths, fun i key value hk hv => ⟨?_, ?_⟩⟩
  · exact call_carries (f := keys) rfl rfl rfl alone callKeys
  · exact call_carries (f := values) rfl rfl rfl alone callValues
  · refine call_carries (f := zipmap) rfl rfl ?_ ?_ zipped
    · simp only [List.map_cons, List.map_nil, around cleanKeys, around cleanValues, id]
    · simp only [Value.marksOfAll, around cleanKeys, around cleanValues, MarkSet.union_empty,
        MarkSet.union_self]
  · have clean : key.Unmarked := cleanKeys.elements key (List.mem_of_getElem? hk)
    refine call_carries (f := lookup) rfl rfl ?_ ?_ (there i key value hk hv).1
    · rw [List.map_cons, List.map_singleton, Value.erase_eq_self clean]
    · rw [Value.marksOfAll, Value.marksOfAll, show key.allMarks = ∅ from clean]
      simp [Value.marksOfAll]
  · have clean : key.Unmarked := cleanKeys.elements key (List.mem_of_getElem? hk)
    refine call_carries (f := lookup) rfl rfl ?_ ?_ (there i key value hk hv).1
    · rw [List.map_cons, List.map_singleton, (around clean).1]
    · simp only [Value.marksOfAll, around clean, MarkSet.union_empty, MarkSet.union_self]

/-- Taking a mapping apart and putting it together is the identity. With marks in the mapping it is
    the identity on the content, and every result carries all the marks. -/
theorem mappings_rejoin (ctx : Context) {m : Value} (h : Separable m) :
    (m.Unmarked → ComesApart (table engine) ctx m m id) ∧
      ComesApart (table engine) ctx m m.erase (·.withMarks m.allMarks) :=
  ⟨comesApart_unmarked ctx h, comesApart_marked ctx h⟩

def openMap : Value :=
  .map .dynamic [("a", .unknownOf .number), ("b", .nullOf .bool), ("c", .string "x")]

def markedObject : Value :=
  (Value.object [("flags", .list .bool [(Value.bool true).withMark "inner"]),
    ("none", .nullOf .number)]).withMark "outer"

theorem openMap_rejoined :
    Separable openMap ∧ openMap.Unmarked ∧ ComesApart standardTable {} openMap openMap id ∧
      Separable markedObject ∧
      ComesApart standardTable {} markedObject
        (.object [("flags", .list .bool [.bool true]), ("none", .nullOf .number)])
        (·.withMarks (MarkSet.ofList ["inner", "outer"])) := by
  have plain : Separable openMap := by
    refine ⟨rfl, rfl, rfl, Dict.sorted_ofList _, fun e type x _ => ?_⟩
    cases type
    exact .inl rfl
  have marked : Separable markedObject :=
    ⟨rfl, rfl, rfl, Dict.sorted_ofList _, fun e type => (by cases type)⟩
  exact ⟨plain, rfl, (mappings_rejoin {} plain).1 rfl, marked, (mappings_rejoin {} marked).2⟩

end MarkedValues.Standard
