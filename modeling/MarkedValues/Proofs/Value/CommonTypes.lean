import MarkedValues.Proofs.Ty.Settled
import MarkedValues.Proofs.Value.Stability

/-!
Values of types that have a common type. Where no part of the types is left open, every such value
converts to it: texts are only ever made, never read, and no length or name is asked for that the
value might lack. Collections that find their own element type fail for want of one alone.
-/
namespace MarkedValues.Value

open Outcomes
open Ty

theorem exists_convert_of_convertTo {v : Value} {u : Ty} (target : conversionType v.ty u = some u)
    (h : ∃ w, convertTo u v = .ok w) : ∃ w, convert v u = .ok w := by
  by_cases same : u = .dynamic ∨ v.ty = u
  · exact ⟨v, convert_of_same same⟩
  · rwa [convert_of_ne same, target]

theorem exists_convertAll {vs : List Value} {e : Ty} {i : Nat}
    (each : ∀ v ∈ vs, ∃ w, convert v e = .ok w) : ∃ ws, convertAll vs i e = .ok ws := by
  induction vs generalizing i with
  | nil => exact ⟨[], rfl⟩
  | cons v vs ih =>
    obtain ⟨w, hw⟩ := each v List.mem_cons_self
    obtain ⟨ws, hws⟩ := @ih (i + 1) fun x hx => each x (List.mem_cons_of_mem v hx)
    exact ⟨w :: ws, by rw [convertAll, hw, hws]; rfl⟩

theorem exists_convertEach {vs : List Value} {ts : List Ty} {i : Nat}
    (each : ∀ (j : Nat) (v : Value) (t : Ty), vs[j]? = some v → ts[j]? = some t →
      ∃ w, convert v t = .ok w) : ∃ ws, convertEach vs i ts = .ok ws := by
  induction vs generalizing i ts with
  | nil => exact ⟨[], rfl⟩
  | cons v vs ih =>
    cases ts with
    | nil => exact ⟨[], rfl⟩
    | cons t ts =>
      obtain ⟨w, hw⟩ := each 0 v t rfl rfl
      obtain ⟨ws, hws⟩ := @ih ts (i + 1) fun j => each (j + 1)
      exact ⟨w :: ws, by rw [convertEach, hw, hws]; rfl⟩

theorem exists_convertEntries {es : List (String × Value)} {e : Ty}
    (each : ∀ x ∈ es, ∃ w, convert x.2 e = .ok w) : ∃ ws, convertEntries es e = .ok ws := by
  induction es with
  | nil => exact ⟨[], rfl⟩
  | cons x es ih =>
    obtain ⟨w, hw⟩ := each x List.mem_cons_self
    obtain ⟨ws, hws⟩ := ih fun y hy => each y (List.mem_cons_of_mem x hy)
    exact ⟨(x.1, w) :: ws, by rw [convertEntries, hw, hws]; rfl⟩

theorem exists_convertAttrs {es : List (String × Value)} {attrs : List (String × Ty)}
    (each : ∀ a ∈ attrs, ∃ v, es.lookup a.1 = some v ∧ ∃ w, convert v a.2 = .ok w) :
    ∃ ws, convertAttrs (converters es) attrs = .ok ws := by
  induction attrs with
  | nil => exact ⟨[], rfl⟩
  | cons a attrs ih =>
    obtain ⟨v, found, w, hw⟩ := each a List.mem_cons_self
    obtain ⟨ws, hws⟩ := ih fun b hb => each b (List.mem_cons_of_mem a hb)
    refine ⟨(a.1, w) :: ws, ?_⟩
    rw [convertAttrs, lookup_converters, found, hws]
    simp only [Option.map_some, hw]
    rfl

section

variable {es : List Value} {m : MarkSet}

theorem exists_convertTo_tuple {us : List Ty} (same : es.length = us.length)
    (each : ∀ (i : Nat) (v : Value) (u : Ty), es[i]? = some v → us[i]? = some u →
      ∃ w, convert v u = .ok w) : ∃ w, convertTo (.tuple us) (.sequence .tuple es m) = .ok w := by
  obtain ⟨ws, hws⟩ := @exists_convertEach es us 0 each
  exact ⟨_, by rw [convertTo, if_neg (not_not_intro same), hws]; rfl⟩

theorem exists_convertTo_elements {k : SequenceKind} {u e : Ty} (made : u.IsSequenceOf e)
    (each : ∀ v ∈ es, ∃ w, convert v e = .ok w) : ∃ w, convertTo u (.sequence k es m) = .ok w := by
  obtain ⟨ws, hws⟩ := @exists_convertAll es e 0 each
  rcases made with rfl | rfl <;> exact ⟨_, by rw [convertTo, hws]; rfl⟩

end

section

variable {es : List (String × Value)} {m : MarkSet}

theorem exists_convertTo_object {attrs : List (String × Ty)}
    (each : ∀ a ∈ attrs, ∃ v, es.lookup a.1 = some v ∧ ∃ w, convert v a.2 = .ok w) :
    ∃ w, convertTo (.object attrs) (.mapping .object es m) = .ok w := by
  obtain ⟨ws, hws⟩ := exists_convertAttrs each
  exact ⟨_, by simp only [convertTo, hws]; rfl⟩

theorem exists_convertTo_map {k : MappingKind} {e : Ty} (each : ∀ x ∈ es, ∃ w, convert x.2 e = .ok w) :
    ∃ w, convertTo (.map e) (.mapping k es m) = .ok w := by
  obtain ⟨ws, hws⟩ := exists_convertEntries each
  exact ⟨_, by rw [convertTo, hws]; rfl⟩

end

section

variable {v : Value} {u : Ty}

theorem exists_convertTo_of_primitive (primitive : v.ty.isPrimitive = true) :
    ∃ w, convertTo .string v = .ok w := by
  cases v with
  | scalar s m => cases s <;> exact ⟨_, rfl⟩
  | sequence k es m => cases k <;> cases primitive
  | mapping k es m => cases k <;> cases primitive
  | _ => exact ⟨_, rfl⟩

theorem exists_convertTo_of_sequence (sequence : v.ty.isSequence = true)
    (h : ∀ k es m, v = .sequence k es m → ∃ w, convertTo u v = .ok w) :
    ∃ w, convertTo u v = .ok w := by
  cases v with
  | scalar s m => cases s <;> cases sequence
  | sequence k es m => exact h k es m rfl
  | mapping k es m => cases k <;> cases sequence
  | _ => exact ⟨_, rfl⟩

theorem exists_convertTo_of_mapping (mapping : v.ty.isMapping = true)
    (h : ∀ k es m, v = .mapping k es m → ∃ w, convertTo u v = .ok w) :
    ∃ w, convertTo u v = .ok w := by
  cases v with
  | scalar s m => cases s <;> cases mapping
  | sequence k es m => cases k <;> cases mapping
  | mapping k es m => exact h k es m rfl
  | _ => exact ⟨_, rfl⟩

end

theorem element_ty_mem {k : SequenceKind} {es : List Value} {m : MarkSet}
    (built : WellFormed (.sequence k es m)) (settled : (Value.ty (.sequence k es m)).Settled)
    {v : Value} (hv : v ∈ es) : v.ty ∈ (Value.ty (.sequence k es m)).sequenceElems := by
  obtain ⟨f, hf, filled⟩ := typed_element built hv
  rwa [filled.eq_of_closed (settled.sequenceElems hf).closed]

theorem entry_ty_mem {k : MappingKind} {es : List (String × Value)} {m : MarkSet}
    (built : WellFormed (.mapping k es m)) (settled : (Value.ty (.mapping k es m)).Settled)
    {x : String × Value} (hx : x ∈ es) : x.2.ty ∈ (Value.ty (.mapping k es m)).mappingElems := by
  obtain ⟨f, hf, filled⟩ := typed_entry built hx
  rwa [filled.eq_of_closed (settled.mappingElems hf).closed]

/-- Each value of one of the types converts to the common type. -/
theorem exists_convert_of_unifies {ts : List Ty} {u : Ty} (h : Unifies ts u)
    (settled : ∀ t ∈ ts, t.Settled) {v : Value} (built : v.WellFormed) (mem : v.ty ∈ ts) :
    ∃ w, convert v u = .ok w := by
  induction h generalizing v with
  -- An open type among the settled ones is what would leave the result open.
  | dynamic whole => exact absurd rfl (settled _ whole).ne_dynamic
  | same _ all => exact ⟨v, convert_of_same (.inr (all _ mem))⟩
  | string primitive =>
    apply exists_convert_of_convertTo (conversionType_of_unifies (.string primitive) settled _ mem)
    exact exists_convertTo_of_primitive (primitive _ mem)
  | @tuple ts us shape parts ih =>
    apply exists_convert_of_convertTo (conversionType_of_unifies (.tuple shape parts) settled _ mem)
    obtain ⟨fs, type, len⟩ := shape _ mem
    apply exists_convertTo_of_sequence (by rw [type]; rfl)
    rintro k es m rfl
    cases k with
    | list e => cases type
    | set e => cases type
    | tuple =>
      have types : es.map ty = fs := by simpa [ty] using type
      -- The common type is a tuple only if all the types have its length.
      have same : es.length = us.length := by rw [← len, ← types, List.length_map]
      refine exists_convertTo_tuple same fun i v u hv hu => ?_
      have here : fs[i]? = some v.ty := by simp [← types, hv]
      have column : v.ty ∈ Ty.column ts i :=
        List.mem_filterMap.2 ⟨_, mem, by rw [type]; exact here⟩
      have part := built.elements v (List.mem_of_getElem? hv)
      exact ih i u hu (settled_column settled i) part column
  | @sequence ts u e made shape empty parts ih =>
    apply exists_convert_of_convertTo
      (conversionType_of_unifies (.sequence made shape empty parts) settled _ mem)
    apply exists_convertTo_of_sequence (shape _ mem)
    rintro k es m rfl
    refine exists_convertTo_elements made fun v hv => ?_
    have inside : v.ty ∈ Ty.allSequenceElems ts :=
      List.mem_flatMap.2 ⟨_, mem, element_ty_mem built (settled _ mem) hv⟩
    exact ih (List.ne_nil_of_mem inside) (settled_allSequenceElems settled)
      (built.elements v hv) inside
  | @object ts attrs some_ shape parts ih =>
    apply exists_convert_of_convertTo
      (conversionType_of_unifies (.object some_ shape parts) settled _ mem)
    obtain ⟨fields, type, keys⟩ := shape _ mem
    apply exists_convertTo_of_mapping (by rw [type]; rfl)
    rintro k es m rfl
    cases k with
    | map e => cases type
    | object =>
      have types : Dict.mapValues ty es = fields := by simpa [ty, Dict.mapValues] using type
      refine exists_convertTo_object fun a ha => ?_
      obtain ⟨f, column, found⟩ := lookup_attrColumn (type ▸ mem) keys ha
      rw [← types, Dict.lookup_mapValues, Option.map_eq_some_iff] at found
      obtain ⟨v, hv, rfl⟩ := found
      have part := built.entries _ (Dict.mem_of_lookup hv)
      exact ⟨v, hv, ih a ha (settled_attrColumn settled a.1) part column⟩
  | @map ts e shape empty parts ih =>
    apply exists_convert_of_convertTo
      (conversionType_of_unifies (.map shape empty parts) settled _ mem)
    apply exists_convertTo_of_mapping (shape _ mem)
    rintro k es m rfl
    refine exists_convertTo_map fun x hx => ?_
    have inside : x.2.ty ∈ Ty.allMappingElems ts :=
      List.mem_flatMap.2 ⟨_, mem, entry_ty_mem built (settled _ mem) hx⟩
    exact ih (List.ne_nil_of_mem inside) (settled_allMappingElems settled)
      (built.entries x hx) inside

structure Closed (v : Value) : Prop where
  built : v.WellFormed
  closed : v.ty.hasDynamic = false

theorem Closed.settled {v : Value} (h : v.Closed) : v.ty.Settled := ⟨h.built.canonical, h.closed⟩

theorem exists_convert_of_commonType {vs : List Value} (closed : ∀ v ∈ vs, v.Closed) {e : Ty}
    (common : Ty.unifyOrDynamic (vs.map ty) = some e) : ∀ v ∈ vs, ∃ w, convert v e = .ok w := by
  intro v hv
  have mem : v.ty ∈ vs.map ty := List.mem_map_of_mem hv
  rw [unifyOrDynamic_of_mem mem] at common
  have settled : ∀ t ∈ vs.map ty, t.Settled := List.forall_mem_map.2 fun x hx => (closed x hx).settled
  exact exists_convert_of_unifies (unifies_of_unify common) settled (closed v hv).built mem

theorem unify_of_unifyOrDynamic_eq_none {ts : List Ty} (h : Ty.unifyOrDynamic ts = none) :
    Ty.unify ts = none := by
  cases ts with
  | nil => exact unify_nil
  | cons t ts => rwa [unifyOrDynamic_of_mem List.mem_cons_self] at h

/-- A collection that is made of elements once their common type is found fails exactly for want of
    one, if the elements convert. -/
theorem eq_error_iff_of_commonType {vs : List Value} {make : Ty → Converted}
    (made : ∀ e, Ty.unifyOrDynamic (vs.map ty) = some e → ∃ w, make e = .ok w)
    {err : ConversionError} : commonType vs >>= make = .error err ↔
      err = ⟨[], .noCommonType⟩ ∧ Ty.unifyOrDynamic (vs.map ty) = none := by
  cases common : Ty.unifyOrDynamic (vs.map ty) with
  | none =>
    simp only [commonType, common, and_true]
    constructor
    · intro h
      cases h
      rfl
    · rintro rfl
      rfl
  | some e =>
    obtain ⟨w, hw⟩ := made e common
    have ok : commonType vs >>= make = .ok w := by
      simp only [commonType, common]
      exact hw
    simp [ok]

section

variable {vs : List Value} {es : Dict Value} {err : ConversionError}

theorem listOf_eq_error (closed : ∀ v ∈ vs, v.Closed) : listOf vs = .error err ↔
    err = ⟨[], .noCommonType⟩ ∧ Ty.unifyOrDynamic (vs.map ty) = none := by
  apply eq_error_iff_of_commonType
  intro e common
  obtain ⟨ws, hws⟩ := @exists_convertAll vs e 0 (exists_convert_of_commonType closed common)
  exact ⟨list e ws, by rw [hws]; rfl⟩

theorem setOf_eq_error (closed : ∀ v ∈ vs, v.Closed) : setOf vs = .error err ↔
    err = ⟨[], .noCommonType⟩ ∧ Ty.unifyOrDynamic (vs.map ty) = none := by
  apply eq_error_iff_of_commonType
  intro e common
  obtain ⟨ws, hws⟩ := @exists_convertAll vs e 0 (exists_convert_of_commonType closed common)
  exact ⟨set e ws, by rw [hws]; rfl⟩

theorem mapOf_eq_error (closed : ∀ v ∈ es.values, v.Closed) : mapOf es = .error err ↔
    err = ⟨[], .noCommonType⟩ ∧ Ty.unifyOrDynamic (es.values.map ty) = none := by
  apply eq_error_iff_of_commonType
  intro e common
  have each := exists_convert_of_commonType closed common
  obtain ⟨ws, hws⟩ := exists_convertEntries fun x hx => each x.2 (List.mem_map_of_mem hx)
  exact ⟨map e ws, by rw [hws]; rfl⟩

end

/-- Types with nothing left open: every value of one of them converts to their common type, and a
    collection of values of such types fails only if there is no common type, at the root. -/
theorem convert_common {ts : List Ty} {vs : List Value} {es : Dict Value} :
    ((∀ t ∈ ts, t.Settled) → ∀ u, Ty.unify ts = some u → ∀ v : Value, v.WellFormed → v.ty ∈ ts →
        ∃ w, convert v u = .ok w) ∧
      ((∀ v ∈ vs, v.Closed) → ∀ err, listOf vs = .error err ∨ setOf vs = .error err →
        err = ⟨[], .noCommonType⟩ ∧ Ty.unify (vs.map ty) = none) ∧
      ((∀ v ∈ es.values, v.Closed) → ∀ err, mapOf es = .error err →
        err = ⟨[], .noCommonType⟩ ∧ Ty.unify (es.values.map ty) = none) := by
  refine ⟨?_, ?_, ?_⟩
  · intro settled u common v built mem
    exact exists_convert_of_unifies (unifies_of_unify common) settled built mem
  · intro closed err failed
    have root := failed.elim (listOf_eq_error closed).1 (setOf_eq_error closed).1
    exact ⟨root.1, unify_of_unifyOrDynamic_eq_none root.2⟩
  · intro closed err failed
    have root := (mapOf_eq_error closed).1 failed
    exact ⟨root.1, unify_of_unifyOrDynamic_eq_none root.2⟩

def sparseRow : Value := tuple [int 1, nullOf .bool]

def misfits : Dict Value := [("x", string "a"), ("y", list .string [unknownOf .string])]

theorem sparseRow_and_misfits :
    (∀ t ∈ [sparseRow.ty, Ty.list .string], t.Settled) ∧
      Ty.unify [sparseRow.ty, .list .string] = some (.list .string) ∧
      (∃ w, convert sparseRow (.list .string) = .ok w) ∧
      (∀ v ∈ misfits.values, v.Closed) ∧
      (∃ err, listOf misfits.values = .error err ∧ err = ⟨[], .noCommonType⟩) ∧
      (∃ err, mapOf misfits = .error err ∧ err = ⟨[], .noCommonType⟩) ∧
      Ty.unify (misfits.values.map ty) = none := by
  have settled : ∀ t ∈ [sparseRow.ty, Ty.list .string], t.Settled := List.forall_mem_cons.2
    ⟨⟨⟨trivial, trivial, trivial⟩, rfl⟩, List.forall_mem_singleton.2 ⟨trivial, rfl⟩⟩
  have common : Ty.unify [sparseRow.ty, .list .string] = some (.list .string) := by decide +kernel
  have built : sparseRow.WellFormed := wellFormed_tuple
    (List.forall_mem_cons.2 ⟨.scalar, List.forall_mem_singleton.2 (.null trivial)⟩)
  have texts : (list .string [unknownOf .string]).WellFormed := wellFormed_list trivial
    (List.forall_mem_singleton.2 rfl) (List.forall_mem_singleton.2 (.unknown trivial))
  have closed : ∀ v ∈ misfits.values, v.Closed := List.forall_mem_cons.2
    ⟨⟨.scalar, rfl⟩, List.forall_mem_singleton.2 ⟨texts, rfl⟩⟩
  have apart : Ty.unifyOrDynamic (misfits.values.map ty) = none := by decide +kernel
  have noList : listOf misfits.values = .error ⟨[], .noCommonType⟩ := by
    rw [listOf, commonType, apart]
    rfl
  have noMap : mapOf misfits = .error ⟨[], .noCommonType⟩ := by
    rw [mapOf, commonType, apart]
    rfl
  obtain ⟨converts, lists, maps⟩ := @convert_common [sparseRow.ty, .list .string] misfits.values misfits
  have inList := lists closed _ (.inl noList)
  have inMap := maps closed _ noMap
  refine ⟨settled, common, ?_, closed, ⟨_, noList, inList.1⟩, ⟨_, noMap, inMap.1⟩, inMap.2⟩
  exact converts settled _ common sparseRow built (by simp)

end MarkedValues.Value
