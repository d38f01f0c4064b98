import MarkedValues.Proofs.Value.Sets

/-!
What a conversion leaves behind. The result is in the state that the value was in, has the target's
type with the open parts filled in, and converts to itself. Its sets are in order and unmarked, and
its collections hold elements of exactly the element type, unless that type is open in part: then
each element fills it in its own way.
-/
namespace MarkedValues

namespace Ty

/-- The element type of every collection is left open as a whole or not at all. -/
inductive Uniform : Ty → Prop
  | plain {t : Ty} : (t.isPrimitive || t.isDynamic) = true → Uniform t
  | collection {t e : Ty} : t.elementType? = some e → e = .dynamic ∨ e.hasDynamic = false → Uniform t
  | tuple {ts : List Ty} : (∀ t ∈ ts, Uniform t) → Uniform (.tuple ts)
  | object {attrs : List (String × Ty)} : (∀ a ∈ attrs, Uniform a.2) → Uniform (.object attrs)

theorem uniform_of_closed {t : Ty} (closed : t.hasDynamic = false) : t.Uniform := by
  induction t with
  | string | number | bool | dynamic => exact .plain rfl
  | list e _ | set e _ | map e _ => exact .collection rfl (.inr closed)
  | tuple ts ih =>
    simp only [hasDynamic, anyDynamic_eq_any, List.any_eq_false] at closed
    exact .tuple fun t ht => ih t ht (by simpa using closed t ht)
  | object attrs ih =>
    simp only [hasDynamic, anyAttrDynamic_eq_any, List.any_eq_false] at closed
    exact .object fun a ha => ih a ha (by simpa using closed a ha)

end Ty

namespace Value

open MarkedValues.Lists Outcomes
open Ty (Matches)

theorem isRefinedNotNull_convert {v w : Value} {t : Ty} (h : convert v t = .ok w) :
    w.isRefinedNotNull = v.isRefinedNotNull := by
  cases converts_of_convert h with
  | scalar _ hw =>
    obtain ⟨c, rfl, _⟩ := scalar_of_convertScalar hw
    rfl
  | _ => rfl

/-- What a value converts to is in the same state, has the target's type with its open parts filled
    in, and is left as it is by the same conversion. -/
theorem convert_settles {v w : Value} {t : Ty} (built : v.WellFormed) (content : v.Canonical)
    (canonical : t.Canonical) (h : convert v t = .ok w) :
    (w.isNull = v.isNull ∧ w.isUnknown = v.isUnknown ∧
        w.isRefinedNotNull = v.isRefinedNotNull) ∧
      (Ty.Fills w.ty t ∧ (t.hasDynamic = false → w.ty = t)) ∧ convert w t = .ok w := by
  have typed : Matches w.ty t := matches_convert (Matches.refl t) canonical h
  refine ⟨⟨isNull_convert h, isUnknown_convert h, isRefinedNotNull_convert h⟩,
    ⟨typed.fills canonical, typed.eq_of_closed⟩, ?_⟩
  obtain ⟨u, hu, same⟩ := fixed_of_matches (built.convert canonical h) canonical typed
  rw [hu, same (content.convert h)]

def listPair : Value :=
  tuple [list .bool [.unknown .bool true ∅, bool true],
    list .string [(string "b").withMark "secret", string "a"]]

def setPair : Value :=
  tuple [.sequence (.set .bool) [bool true, .unknown .bool true ∅] ∅,
    .sequence (.set .string) [string "a", string "b"] (MarkSet.ofList ["secret"])]

theorem listPair_settles :
    listPair.WellFormed ∧ listPair.Canonical ∧
      convert listPair (.tuple [.set .dynamic, .set .dynamic]) = .ok setPair ∧
      Ty.Fills setPair.ty (.tuple [.set .dynamic, .set .dynamic]) ∧
      convert setPair (.tuple [.set .dynamic, .set .dynamic]) = .ok setPair := by
  have built : listPair.WellFormed := by
    refine wellFormed_tuple (List.forall_mem_cons.2 ⟨?_, List.forall_mem_singleton.2 ?_⟩)
    · exact wellFormed_list trivial (List.forall_mem_cons.2 ⟨rfl, List.forall_mem_singleton.2 rfl⟩)
        (List.forall_mem_cons.2 ⟨.unknown trivial, List.forall_mem_singleton.2 .scalar⟩)
    · exact wellFormed_list trivial (List.forall_mem_cons.2 ⟨rfl, List.forall_mem_singleton.2 rfl⟩)
        (List.forall_mem_cons.2 ⟨.scalar, List.forall_mem_singleton.2 .scalar⟩)
  have content : listPair.Canonical := by
    refine canonical_tuple (List.forall_mem_cons.2 ⟨?_, List.forall_mem_singleton.2 ?_⟩)
    · exact canonical_list (List.forall_mem_cons.2 ⟨.unknown, List.forall_mem_singleton.2 .scalar⟩)
    · exact canonical_list (List.forall_mem_cons.2 ⟨.scalar, List.forall_mem_singleton.2 .scalar⟩)
  have canonical : (Ty.tuple [.set .dynamic, .set .dynamic]).Canonical := ⟨trivial, trivial, trivial⟩
  have converted : convert listPair (.tuple [.set .dynamic, .set .dynamic]) = .ok setPair := rfl
  obtain ⟨_, ⟨filled, _⟩, again⟩ := convert_settles built content canonical converted
  exact ⟨built, content, converted, filled, again⟩

def parts (v : Value) : List Value := v.elements ++ Dict.values v.entries

theorem parts_sequence (k : SequenceKind) (es : List Value) (m : MarkSet) :
    (Value.sequence k es m).parts = es :=
  List.append_nil es

theorem parts_mapping (k : MappingKind) (es : List (String × Value)) (m : MarkSet) :
    (Value.mapping k es m).parts = Dict.values es := rfl

@[simp] theorem parts_withMarks (v : Value) (m : MarkSet) : (v.withMarks m).parts = v.parts := by
  cases v <;> rfl

@[simp] theorem elements_withMarks (v : Value) (m : MarkSet) :
    (v.withMarks m).elements = v.elements := by
  cases v <;> rfl

theorem parts_erase (v : Value) : v.erase.parts = v.parts.map erase := by
  cases v with
  | sequence k es m => simp only [erase, parts_sequence, eraseAll_eq_map]
  | mapping k es m =>
    rw [erase, parts_mapping, parts_mapping, eraseEntries_eq_mapValues, Dict.values_mapValues]
  | _ => rfl

/-- The element type is left open, or the type is exactly this. -/
def HasElementType (a e : Ty) : Prop := e = .dynamic ∨ a = e

/-- At every depth, the types of elements agree with the element type, and the content of sets is in
    order and unmarked. -/
inductive Typed (agree : Ty → Ty → Prop) : Value → Prop
  | intro {v : Value} (elements : ∀ e, v.ty.elementType? = some e → ∀ p ∈ v.parts, agree p.ty e)
    (content : ∀ e, v.ty = .set e → v.elements.Pairwise Below ∧ ∀ p ∈ v.elements, p.Unmarked)
    (inside : ∀ p ∈ v.parts, Typed agree p) : Typed agree v

section

variable {agree : Ty → Ty → Prop}

theorem Typed.imp {weaker : Ty → Ty → Prop} (imp : ∀ a e, agree a e → weaker a e) {v : Value}
    (h : v.Typed agree) : v.Typed weaker := by
  induction h with
  | intro elements content _ ih =>
    exact .intro (fun e he p hp => imp _ _ (elements e he p hp)) content ih

theorem Typed.withMarks {v : Value} (h : v.Typed agree) (m : MarkSet) :
    (v.withMarks m).Typed agree := by
  cases h with
  | intro elements content inside =>
    refine .intro (fun e he => ?_) (fun e he => ?_) ?_
    · rw [ty_withMarks] at he
      rw [parts_withMarks]
      exact elements e he
    · rw [ty_withMarks] at he
      rw [elements_withMarks]
      exact content e he
    · rwa [parts_withMarks]

theorem Typed.erase {v : Value} (h : v.Typed agree) : v.erase.Typed agree := by
  induction h with
  | intro elements content _ ih =>
    refine .intro (fun e he => ?_) (fun e he => ?_) ?_
    · rw [ty_erase] at he
      rw [parts_erase]
      exact List.forall_mem_map.2 fun p hp => (ty_erase p).symm ▸ elements e he p hp
    · rw [ty_erase] at he
      obtain ⟨sorted, unmarked⟩ := content e he
      rw [elements_erase, List.map_congr_left fun p hp => erase_eq_self (unmarked p hp), List.map_id']
      exact ⟨sorted, unmarked⟩
    · rw [parts_erase]
      exact List.forall_mem_map.2 ih

section

variable {e : Ty} {vs : List Value} {es : List (String × Value)}

theorem typed_list (each : ∀ v ∈ vs, agree v.ty e ∧ v.Typed agree) : (list e vs).Typed agree := by
  have parts : (list e vs).parts = vs := parts_sequence _ _ _
  refine .intro (fun u hu => ?_) nofun fun p hp => (each p (parts ▸ hp)).2
  cases hu
  exact fun p hp => (each p (parts ▸ hp)).1

theorem typed_set (each : ∀ v ∈ vs, agree v.ty e ∧ v.Typed agree) : (set e vs).Typed agree := by
  have parts : (set e vs).parts = normalize (vs.map erase) := parts_sequence _ _ _
  have origin : ∀ p ∈ (set e vs).parts, ∃ v ∈ vs, v.erase = p := fun p hp =>
    List.mem_map.1 (mem_normalize (parts ▸ hp))
  refine .intro (fun u hu p hp => ?_) (fun u _ => ?_) fun p hp => ?_
  · cases hu
    obtain ⟨v, hv, rfl⟩ := origin p hp
    exact (ty_erase v).symm ▸ (each v hv).1
  · exact ⟨pairwise_normalize _, (setContent_erased vs).unmarked⟩
  · obtain ⟨v, hv, rfl⟩ := origin p hp
    exact (each v hv).2.erase

theorem typed_tuple (each : ∀ v ∈ vs, v.Typed agree) : (tuple vs).Typed agree := by
  have parts : (tuple vs).parts = vs := parts_sequence _ _ _
  exact .intro nofun nofun fun p hp => each p (parts ▸ hp)

theorem typed_map (each : ∀ x ∈ es, agree x.2.ty e ∧ x.2.Typed agree) : (map e es).Typed agree := by
  have origin : ∀ p ∈ (map e es).parts, ∃ x ∈ es, x.2 = p := by
    intro p hp
    obtain ⟨x, hx, rfl⟩ := List.mem_map.1 hp
    exact ⟨x, Dict.mem_ofList hx, rfl⟩
  refine .intro (fun u hu p hp => ?_) nofun fun p hp => ?_
  · cases hu
    obtain ⟨x, hx, rfl⟩ := origin p hp
    exact (each x hx).1
  · obtain ⟨x, hx, rfl⟩ := origin p hp
    exact (each x hx).2

theorem typed_object (each : ∀ x ∈ Dict.ofList es, x.2.Typed agree) : (object es).Typed agree :=
  .intro nofun nofun (List.forall_mem_map.2 each)

theorem typed_of_parts_nil {v : Value} (none : v.parts = []) : v.Typed agree := by
  refine .intro (fun e _ p hp => ?_) (fun e _ => ?_) fun p hp => ?_
  · rw [none] at hp
    cases hp
  · rw [(List.append_eq_nil_iff.1 none).1]
    exact ⟨.nil, nofun⟩
  · rw [none] at hp
    cases hp

end

/-- In a value of a type that `good` admits, elements agree with the element type as
    soon as they match it. -/
structure Governs (good : Ty → Prop) (agree : Ty → Ty → Prop) : Prop where
  whole : ∀ a, agree a .dynamic
  element : ∀ {t e a : Ty}, good t → t.elementType? = some e → e ≠ .dynamic → Matches a e →
    agree a e ∧ good a
  place : ∀ {ts : List Ty} {t : Ty}, good (.tuple ts) → t ∈ ts → good t
  attr : ∀ {attrs : List (String × Ty)} {a : String × Ty}, good (.object attrs) → a ∈ attrs →
    good a.2

variable {good : Ty → Prop}

theorem typed_converted (governs : Governs good agree) {t e : Ty} (admitted : good t)
    (type : t.elementType? = some e) (canonical : e.Canonical) {v w : Value} (typed : v.Typed agree)
    (each : good w.ty → w.Typed agree) (h : Value.convert v e = .ok w) :
    agree w.ty e ∧ w.Typed agree := by
  by_cases whole : e = .dynamic
  -- Nothing is converted to the open type, so here the type of the element says nothing.
  · subst whole
    rw [convert_of_same (.inl rfl)] at h
    cases h
    exact ⟨governs.whole _, typed⟩
  · have filled : Matches w.ty e := matches_convert (Matches.refl e) canonical h
    have agreed := governs.element admitted type whole filled
    exact ⟨agreed.1, each agreed.2⟩

theorem Typed.convert (governs : Governs good agree) {v w : Value} {t : Ty} (built : v.WellFormed)
    (typed : v.Typed agree) (canonical : t.Canonical) (h : v.convert t = .ok w)
    (admitted : good w.ty) : w.Typed agree := by
  -- What the type of the whole admits it admits of each part of a tuple or an object. Of an
  -- element it does so only if the element was converted at all.
  induction v generalizing t w with
  | null s m =>
    cases converts_of_convert h with
    | same _ => exact typed
    | null _ => exact typed_of_parts_nil rfl
  | unknown s r m =>
    cases converts_of_convert h with
    | same _ => exact typed
    | unknown _ => exact typed_of_parts_nil rfl
  | scalar s m =>
    cases converts_of_convert h with
    | same _ => exact typed
    | scalar _ hw =>
      obtain ⟨c, rfl, _⟩ := scalar_of_convertScalar hw
      exact typed_of_parts_nil rfl
  | sequence k es m ih =>
    have target : ∀ {u : Ty}, Ty.conversionType (Value.ty (.sequence k es m)) t = some u →
        u.Canonical := Ty.canonical_conversionType built.canonical canonical
    have inside : ∀ v ∈ es, v.Typed agree := by
      cases typed with
      | intro _ _ inside => rwa [parts_sequence] at inside
    have alike : ∀ {e : Ty} {ws : List Value}, e.Canonical → w.ty.elementType? = some e →
        List.Forall₂ (fun v w => Value.convert v e = .ok w) es ws →
        ∀ w ∈ ws, agree w.ty e ∧ w.Typed agree := by
      intro e ws elem type converted w hw
      obtain ⟨v, hv, hvw⟩ := exists_of_mem_right converted hw
      exact typed_converted governs admitted type elem (inside v hv)
        (ih v hv (built.elements v hv) (inside v hv) elem hvw) hvw
    cases converts_of_convert h with
    | same _ => exact typed
    | @list _ _ ws _ _ e hu converted =>
      rw [ty_withMarks] at alike
      exact (typed_list (alike (Ty.canonical_list.1 (target hu)) rfl converted)).withMarks m
    | @set _ _ ws _ _ e hu converted =>
      rw [ty_withMarks] at alike
      exact (typed_set (alike (Ty.canonical_set.1 (target hu)) rfl converted)).withMarks m
    | @tuple _ _ ws _ _ ts hu converted =>
      have places := Ty.canonicalAll_iff.1 (target hu)
      have types : (tuple ws).ty = .tuple (ws.map ty) := by simp [tuple, ty]
      rw [ty_withMarks, types] at admitted
      have each : ∀ w ∈ ws, good w.ty → w.Typed agree := forall_of_convertedEach
        (fun v hv t ht w hw => ih v hv (built.elements v hv) (inside v hv) (places t ht) hw) converted
      refine (typed_tuple fun w hw => each w hw ?_).withMarks m
      exact governs.place admitted (List.mem_map_of_mem hw)
  | mapping k es m ih =>
    have target : ∀ {u : Ty}, Ty.conversionType (Value.ty (.mapping k es m)) t = some u →
        u.Canonical := Ty.canonical_conversionType built.canonical canonical
    have inside : ∀ x ∈ es, x.2.Typed agree := by
      cases typed with
      | intro _ _ inside => exact List.forall_mem_map.1 inside
    cases converts_of_convert h with
    | same _ => exact typed
    | @map _ _ ws _ _ e hu converted =>
      rw [ty_withMarks] at admitted
      refine (typed_map fun x hx => ?_).withMarks m
      obtain ⟨y, hy, _, hyx⟩ := exists_of_mem_right converted hx
      have elem := Ty.canonical_map.1 (target hu)
      exact typed_converted governs admitted rfl elem (inside y hy)
        (ih y hy (built.entries y hy) (inside y hy) elem hyx) hyx
    | @object _ _ ws _ _ attrs hu converted _ =>
      have names := Ty.canonicalAttrs_iff.1 (target hu).2
      have types : (object ws).ty = .object ((Dict.ofList ws).map fun x => (x.1, x.2.ty)) := by
        simp [object, ty]
      rw [ty_withMarks, types] at admitted
      refine (typed_object fun x hx => ?_).withMarks m
      obtain ⟨a, ha, _, v, found, hv⟩ := exists_of_mem_right converted (Dict.mem_ofList hx)
      have mem := Dict.mem_of_lookup found
      refine ih _ mem (built.entries _ mem) (inside _ mem) (names a ha) hv ?_
      exact governs.attr admitted (List.mem_map_of_mem hx)

theorem canonical_commonType {vs : List Value} {e : Ty} (built : ∀ v ∈ vs, v.WellFormed)
    (h : commonType vs = .ok e) : e.Canonical := by
  unfold commonType Ty.unifyOrDynamic at h
  split at h
  · next u common =>
    cases h
    split at common
    · cases common
      trivial
    · exact Ty.canonical_unify (List.forall_mem_map.2 fun v hv => (built v hv).canonical) common
  · cases h

theorem typed_common (governs : Governs good agree) {t e : Ty} (admitted : good t)
    (type : t.elementType? = some e) {vs : List Value} (built : ∀ v ∈ vs, v.WellFormed)
    (typed : ∀ v ∈ vs, v.Typed agree) (common : commonType vs = .ok e) {v w : Value} (hv : v ∈ vs)
    (h : v.convert e = .ok w) : agree w.ty e ∧ w.Typed agree :=
  have canonical := canonical_commonType built common
  typed_converted governs admitted type canonical (typed v hv)
    ((typed v hv).convert governs (built v hv) canonical h) h

theorem typed_listOf (governs : Governs good agree) {vs : List Value} {w : Value}
    (built : ∀ v ∈ vs, v.WellFormed) (typed : ∀ v ∈ vs, v.Typed agree) (h : listOf vs = .ok w)
    (admitted : good w.ty) : w.Typed agree := by
  simp only [listOf, bind_eq_ok] at h
  obtain ⟨e, common, ws, hws, heq⟩ := h
  cases heq
  refine typed_list fun w hw => ?_
  obtain ⟨v, hv, hvw⟩ := exists_of_mem_right (forall₂_of_convertAll hws) hw
  exact typed_common governs admitted rfl built typed common hv hvw

theorem typed_setOf (governs : Governs good agree) {vs : List Value} {w : Value}
    (built : ∀ v ∈ vs, v.WellFormed) (typed : ∀ v ∈ vs, v.Typed agree) (h : setOf vs = .ok w)
    (admitted : good w.ty) : w.Typed agree := by
  simp only [setOf, bind_eq_ok] at h
  obtain ⟨e, common, ws, hws, heq⟩ := h
  cases heq
  refine typed_set fun w hw => ?_
  obtain ⟨v, hv, hvw⟩ := exists_of_mem_right (forall₂_of_convertAll hws) hw
  exact typed_common governs admitted rfl built typed common hv hvw

theorem typed_mapOf (governs : Governs good agree) {es : Dict Value} {w : Value}
    (built : ∀ v ∈ es.values, v.WellFormed) (typed : ∀ v ∈ es.values, v.Typed agree)
    (h : mapOf es = .ok w) (admitted : good w.ty) : w.Typed agree := by
  simp only [mapOf, bind_eq_ok] at h
  obtain ⟨e, common, ws, hws, heq⟩ := h
  cases heq
  refine typed_map fun x hx => ?_
  obtain ⟨y, hy, _, hyx⟩ := exists_of_mem_right (forall₂_of_convertEntries hws) hx
  exact typed_common governs admitted rfl built typed common (List.mem_map_of_mem hy) hyx

end

theorem governs_matches : Governs (fun _ => True) Matches where
  whole := Ty.matches_dynamic
  element := fun _ _ _ filled => ⟨filled, trivial⟩
  place := fun _ _ => trivial
  attr := fun _ _ => trivial

theorem governs_hasElementType : Governs Ty.Uniform HasElementType where
  whole := fun _ => .inl rfl
  element := by
    intro t e a uniform type settled filled
    cases uniform with
    | plain plain =>
      have none : t.elementType? = none := by
        cases t <;> first | rfl | cases plain
      cases none.symm.trans type
    | collection type' shut =>
      cases type.symm.trans type'
      have closed := shut.resolve_left settled
      have same : a = e := filled.eq_of_closed closed
      exact ⟨.inr same, same ▸ Ty.uniform_of_closed closed⟩
    | tuple _ => cases type
    | object _ => cases type
  place := by
    intro ts t uniform ht
    cases uniform with
    | plain plain => cases plain
    | collection type _ => cases type
    | tuple each => exact each t ht
  attr := by
    intro attrs a uniform ha
    cases uniform with
    | plain plain => cases plain
    | collection type _ => cases type
    | object each => exact each a ha

theorem matches_of_hasElementType (a e : Ty) (h : HasElementType a e) : Matches a e := by
  rcases h with rfl | rfl
  · exact Ty.matches_dynamic a
  · exact Matches.refl a

/-- Typed as far as the element types allow: elements match them, and have exactly them where none
    is open in part. -/
structure WellTyped (w : Value) : Prop where
  fitting : w.Typed Matches
  exact : w.ty.Uniform → w.Typed HasElementType

section

variable {v w : Value} {vs : List Value} {es : Dict Value} {t : Ty}

/-- Converting exactly typed values and collecting them gives values whose sets are in order and
    unmarked and whose elements have the element type, or fill it where it is open in part. -/
theorem typed_by_conversion :
    (v.WellFormed → v.Typed HasElementType → t.Canonical → convert v t = .ok w → w.WellTyped) ∧
      ((∀ v ∈ vs, v.WellFormed) → (∀ v ∈ vs, v.Typed HasElementType) →
        listOf vs = .ok w ∨ setOf vs = .ok w → w.WellTyped) ∧
      ((∀ v ∈ es.values, v.WellFormed) → (∀ v ∈ es.values, v.Typed HasElementType) →
        mapOf es = .ok w → w.WellTyped) := by
  have fits : ∀ {v : Value}, v.Typed HasElementType → v.Typed Matches :=
    Typed.imp matches_of_hasElementType
  refine ⟨fun built typed canonical h => ?_, fun built typed h => ?_, fun built typed h => ?_⟩
  · exact ⟨(fits typed).convert governs_matches built canonical h trivial,
      typed.convert governs_hasElementType built canonical h⟩
  · rcases h with h | h
    · exact ⟨typed_listOf governs_matches built (fun v hv => fits (typed v hv)) h trivial,
        typed_listOf governs_hasElementType built typed h⟩
    · exact ⟨typed_setOf governs_matches built (fun v hv => fits (typed v hv)) h trivial,
        typed_setOf governs_hasElementType built typed h⟩
  · exact ⟨typed_mapOf governs_matches built (fun v hv => fits (typed v hv)) h trivial,
      typed_mapOf governs_hasElementType built typed h⟩

end

def mixedLists : List Value := [list .dynamic [], (stringList ["b"]).withMark "secret"]

def setOfMixedLists : Value :=
  .sequence (.set (.list .dynamic)) [stringList ["b"], list .dynamic []] (MarkSet.ofList ["secret"])

def mixedTexts : Dict Value := [("x", nullOf .number), ("y", string "b")]

def mapOfMixedTexts : Value := map .string [("x", nullOf .string), ("y", string "b")]

theorem mixedLists_wellTyped :
    (tuple mixedLists).WellFormed ∧ (tuple mixedLists).Typed HasElementType ∧
      convert (tuple mixedLists) (.set (.list .dynamic)) = .ok setOfMixedLists ∧
      setOfMixedLists.Typed Matches ∧ ¬ setOfMixedLists.Typed HasElementType ∧
      listOf mixedLists = .ok (list (.list .dynamic) mixedLists) ∧
      (list (.list .dynamic) mixedLists).Typed Matches ∧
      mapOf mixedTexts = .ok mapOfMixedTexts ∧ mapOfMixedTexts.Typed HasElementType := by
  have built : ∀ v ∈ mixedLists, v.WellFormed := by
    refine List.forall_mem_cons.2 ⟨.list trivial nofun nofun, List.forall_mem_singleton.2 ?_⟩
    exact .list trivial (List.forall_mem_singleton.2 rfl) (List.forall_mem_singleton.2 .scalar)
  have typed : ∀ v ∈ mixedLists, v.Typed HasElementType := by
    refine List.forall_mem_cons.2 ⟨typed_of_parts_nil rfl, List.forall_mem_singleton.2 ?_⟩
    have text : HasElementType (string "b").ty .string := .inr rfl
    have plain : (stringList ["b"]).Typed HasElementType :=
      typed_list (List.forall_mem_singleton.2 ⟨text, typed_of_parts_nil rfl⟩)
    exact plain.withMarks (MarkSet.ofList ["secret"])
  have converted : convert (tuple mixedLists) (.set (.list .dynamic)) = .ok setOfMixedLists := rfl
  have collected : listOf mixedLists = .ok (list (.list .dynamic) mixedLists) := by
    have common : Ty.unifyOrDynamic (mixedLists.map ty) = some (.list .dynamic) := by decide +kernel
    rw [listOf, commonType, common]
    rfl
  have builtTexts : ∀ v ∈ mixedTexts.values, v.WellFormed :=
    List.forall_mem_cons.2 ⟨.null trivial, List.forall_mem_singleton.2 .scalar⟩
  have typedTexts : ∀ v ∈ mixedTexts.values, v.Typed HasElementType :=
    List.forall_mem_cons.2 ⟨typed_of_parts_nil rfl,
      List.forall_mem_singleton.2 (typed_of_parts_nil rfl)⟩
  have mapped : mapOf mixedTexts = .ok mapOfMixedTexts := by
    have common : Ty.unifyOrDynamic (mixedTexts.values.map ty) = some .string := by decide +kernel
    rw [mapOf, commonType, common]
    rfl
  have fromTuple := @typed_by_conversion (tuple mixedLists) setOfMixedLists mixedLists mixedTexts
    (.set (.list .dynamic))
  have fromList := @typed_by_conversion (tuple mixedLists) (list (.list .dynamic) mixedLists)
    mixedLists mixedTexts .dynamic
  have fromMap := @typed_by_conversion (tuple mixedLists) mapOfMixedTexts mixedLists mixedTexts
    .dynamic
  refine ⟨wellFormed_tuple built, typed_tuple typed, converted, ?_, fun exactly => ?_, collected, ?_,
    mapped, ?_⟩
  · exact (fromTuple.1 (wellFormed_tuple built) (typed_tuple typed) trivial converted).fitting
  · cases exactly with
    | intro elements _ _ =>
      have first : HasElementType (stringList ["b"]).ty (.list .dynamic) :=
        elements _ rfl _ (List.mem_cons_self ..)
      rcases first with impossible | impossible <;> cases impossible
  · exact (fromList.2.1 built typed (.inl collected)).fitting
  · exact (fromMap.2.2 builtTexts typedTexts mapped).exact (Ty.uniform_of_closed rfl)

end Value

end MarkedValues
