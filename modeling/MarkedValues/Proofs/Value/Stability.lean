import MarkedValues.Proofs.Value.WellFormed

/-!
Well-formed values under the operations of the library. What the constructors build is well-formed
when its parts are, erasing and converting keep it so, and a value that matches a type already
converts to it; if its sets are in canonical form, it converts to itself.
-/
namespace MarkedValues.Value

open MarkedValues.Lists Outcomes
open Ty (Matches)

section

variable {e : Ty} {vs : List Value} {es : List (String × Value)}

theorem wellFormed_list (canonical : e.Canonical) (typed : ∀ v ∈ vs, Matches v.ty e)
    (parts : ∀ v ∈ vs, v.WellFormed) : (list e vs).WellFormed :=
  .list canonical typed parts

theorem wellFormed_stringList (ss : List String) : (stringList ss).WellFormed :=
  wellFormed_list trivial (List.forall_mem_map.2 fun _ _ => rfl)
    (List.forall_mem_map.2 fun _ _ => .scalar)

theorem wellFormed_tuple (parts : ∀ v ∈ vs, v.WellFormed) : (tuple vs).WellFormed := .tuple parts

theorem wellFormed_map (canonical : e.Canonical) (typed : ∀ x ∈ es, Matches x.2.ty e)
    (parts : ∀ x ∈ es, x.2.WellFormed) : (map e es).WellFormed :=
  .map canonical (Dict.sorted_ofList es) (fun x hx => typed x (Dict.mem_ofList hx))
    fun x hx => parts x (Dict.mem_ofList hx)

theorem wellFormed_object (parts : ∀ x ∈ es, x.2.WellFormed) : (object es).WellFormed :=
  .object (Dict.sorted_ofList es) fun x hx => parts x (Dict.mem_ofList hx)

end

theorem WellFormed.setMarks {v : Value} (wf : v.WellFormed) (m : MarkSet) :
    (v.setMarks m).WellFormed := by
  cases wf with
  | null canonical => exact .null canonical
  | unknown canonical => exact .unknown canonical
  | scalar => exact .scalar
  | list canonical typed parts => exact .list canonical typed parts
  | set canonical typed parts => exact .set canonical typed parts
  | tuple parts => exact .tuple parts
  | map canonical sorted typed parts => exact .map canonical sorted typed parts
  | object sorted parts => exact .object sorted parts

theorem WellFormed.withMarks {v : Value} (wf : v.WellFormed) (m : MarkSet) :
    (v.withMarks m).WellFormed :=
  wf.setMarks _

theorem WellFormed.erase {v : Value} (wf : v.WellFormed) : v.erase.WellFormed := by
  induction v with
  | null t m =>
    cases wf with
    | null canonical => exact .null canonical
  | unknown t r m =>
    cases wf with
    | unknown canonical => exact .unknown canonical
  | scalar s m => exact .scalar
  | sequence k es m ih =>
    have parts : ∀ w ∈ es.map Value.erase, w.WellFormed :=
      List.forall_mem_map.2 fun v hv => ih v hv (wf.elements v hv)
    simp only [Value.erase, eraseAll_eq_map]
    cases wf with
    | list canonical typed _ =>
      exact .list canonical (List.forall_mem_map.2 fun v hv => by simpa using typed v hv) parts
    | set canonical typed _ =>
      exact .set canonical (List.forall_mem_map.2 fun v hv => by simpa using typed v hv) parts
    | tuple _ => exact .tuple parts
  | mapping k es m ih =>
    have parts : ∀ x ∈ Dict.mapValues Value.erase es, x.2.WellFormed :=
      List.forall_mem_map.2 fun x hx => ih x hx (wf.entries x hx)
    have sorted : Dict.Sorted (Dict.mapValues Value.erase es) :=
      wf.sorted.of_keys_eq (Dict.keys_mapValues _ es)
    simp only [Value.erase, eraseEntries_eq_mapValues]
    cases wf with
    | map canonical _ typed _ =>
      refine .map canonical sorted (List.forall_mem_map.2 fun x hx => ?_) parts
      simpa using typed x hx
    | object _ _ => exact .object sorted parts

theorem wellFormed_set {e : Ty} {vs : List Value} (canonical : e.Canonical)
    (typed : ∀ v ∈ vs, Matches v.ty e) (parts : ∀ v ∈ vs, v.WellFormed) :
    (set e vs).WellFormed := by
  have origin : ∀ w ∈ normalize (vs.map erase), ∃ v ∈ vs, v.erase = w :=
    fun w hw => List.mem_map.1 (mem_normalize hw)
  refine .set canonical (fun w hw => ?_) fun w hw => ?_
  · obtain ⟨v, hv, rfl⟩ := origin w hw
    simpa using typed v hv
  · obtain ⟨v, hv, rfl⟩ := origin w hw
    exact (parts v hv).erase

/-- What a well-formed value converts to is well-formed. -/
theorem WellFormed.convert {v w : Value} {t : Ty} (wf : v.WellFormed) (canonical : t.Canonical)
    (h : v.convert t = .ok w) : w.WellFormed := by
  induction v generalizing t w with
  | null s m =>
    cases converts_of_convert h with
    | same _ => exact wf
    | null hu => exact .null (Ty.canonical_conversionType wf.canonical canonical hu)
  | unknown s r m =>
    cases converts_of_convert h with
    | same _ => exact wf
    | unknown hu => exact .unknown (Ty.canonical_conversionType wf.canonical canonical hu)
  | scalar s m =>
    cases converts_of_convert h with
    | same _ => exact wf
    | scalar _ hw =>
      obtain ⟨c, rfl, _⟩ := scalar_of_convertScalar hw
      exact WellFormed.scalar.withMarks m
  | sequence k es m ih =>
    have target : ∀ {u : Ty}, Ty.conversionType (Value.ty (.sequence k es m)) t = some u →
        u.Canonical := Ty.canonical_conversionType wf.canonical canonical
    -- The elements of a list or set are converted alike, and match the element type afterwards.
    have alike : ∀ {e : Ty} {ws : List Value}, e.Canonical →
        List.Forall₂ (fun v w => Value.convert v e = .ok w) es ws →
        ∀ w ∈ ws, Matches w.ty e ∧ w.WellFormed := by
      intro e ws elem parts w hw
      obtain ⟨v, hv, hvw⟩ := exists_of_mem_right parts hw
      exact ⟨matches_convert (Matches.refl e) elem hvw, ih v hv (wf.elements v hv) elem hvw⟩
    cases converts_of_convert h with
    | same _ => exact wf
    | list hu parts =>
      have elem := Ty.canonical_list.1 (target hu)
      have both := alike elem parts
      exact (wellFormed_list elem (fun w hw => (both w hw).1)
        fun w hw => (both w hw).2).withMarks m
    | set hu parts =>
      have elem := Ty.canonical_set.1 (target hu)
      have both := alike elem parts
      exact (wellFormed_set elem (fun w hw => (both w hw).1)
        fun w hw => (both w hw).2).withMarks m
    | tuple hu parts =>
      have places := Ty.canonicalAll_iff.1 (target hu)
      refine (wellFormed_tuple (forall_of_convertedEach ?_ parts)).withMarks m
      exact fun v hv t ht w hw => ih v hv (wf.elements v hv) (places t ht) hw
  | mapping k es m ih =>
    have target : ∀ {u : Ty}, Ty.conversionType (Value.ty (.mapping k es m)) t = some u →
        u.Canonical := Ty.canonical_conversionType wf.canonical canonical
    cases converts_of_convert h with
    | same _ => exact wf
    | @map _ _ ws _ _ e hu parts =>
      have elem : e.Canonical := Ty.canonical_map.1 (target hu)
      have both : ∀ x ∈ ws, Matches x.2.ty e ∧ x.2.WellFormed := by
        intro x hx
        obtain ⟨y, hy, _, hyx⟩ := exists_of_mem_right parts hx
        exact ⟨matches_convert (Matches.refl e) elem hyx, ih y hy (wf.entries y hy) elem hyx⟩
      exact (wellFormed_map elem (fun x hx => (both x hx).1) fun x hx => (both x hx).2).withMarks m
    | object hu parts _ =>
      have names := Ty.canonicalAttrs_iff.1 (target hu).2
      refine (wellFormed_object fun x hx => ?_).withMarks m
      obtain ⟨a, ha, _, v, found, hv⟩ := exists_of_mem_right parts hx
      have mem := Dict.mem_of_lookup found
      exact ih _ mem (wf.entries _ mem) (names a ha) hv

/-- What the content of a set is like: unmarked, in order, and no known element repeated. -/
structure SetContent (es : List Value) : Prop where
  unmarked : ∀ v ∈ es, v.Unmarked
  normal : normalize es = es

/-- Every set in the value is in canonical form. -/
inductive Canonical : Value → Prop
  | null {t : Ty} {m : MarkSet} : Canonical (.null t m)
  | unknown {t : Ty} {r : Bool} {m : MarkSet} : Canonical (.unknown t r m)
  | scalar {s : Scalar} {m : MarkSet} : Canonical (.scalar s m)
  | sequence {k : SequenceKind} {es : List Value} {m : MarkSet}
    (content : ∀ e, k = .set e → SetContent es) (parts : ∀ v ∈ es, Canonical v) :
    Canonical (.sequence k es m)
  | mapping {k : MappingKind} {es : List (String × Value)} {m : MarkSet}
    (parts : ∀ x ∈ es, Canonical x.2) : Canonical (.mapping k es m)

theorem set_withMarks {es : List Value} (unmarked : ∀ v ∈ es, v.Unmarked) (e : Ty) (m : MarkSet) :
    (set e es).withMarks m = .sequence (.set e) (normalize es) m := by
  have erased : es.map erase = es := by
    refine (List.map_congr_left fun v hv => ?_).trans (List.map_id es)
    exact erase_eq_self (unmarked v hv)
  have none : marksOfAll es = ∅ := marksOfAll_eq_empty.2 unmarked
  rw [set, erased, none]
  exact congrArg (sequence _ (normalize es)) (MarkSet.empty_union m)

theorem SetContent.set_withMarks {es : List Value} (h : SetContent es) (e : Ty) (m : MarkSet) :
    (set e es).withMarks m = .sequence (.set e) es m := by
  rw [Value.set_withMarks h.unmarked, h.normal]

/-- The value converts to the type, to itself if its sets are in canonical form. -/
def Fixed (v : Value) (t : Ty) : Prop := ∃ w, convert v t = .ok w ∧ (v.Canonical → w = v)

theorem fixed_of_same {v : Value} {t : Ty} (same : t = .dynamic ∨ v.ty = t) : Fixed v t :=
  ⟨v, convert_of_same same, fun _ => rfl⟩

theorem fixed_of_convertTo {v w : Value} {t : Ty} (canonical : t.Canonical)
    (typed : Matches v.ty t) (h : convertTo v.ty v = .ok w) (eq : v.Canonical → w = v) :
    Fixed v t := by
  by_cases same : t = .dynamic ∨ v.ty = t
  · exact fixed_of_same same
  · have filled : Ty.conversionType v.ty t = some v.ty := typed.fills canonical
    refine ⟨w, ?_, eq⟩
    rw [convert_of_ne same, filled]
    exact h

theorem convertAll_of_fixed {vs : List Value} {e : Ty} (i : Nat) (each : ∀ v ∈ vs, Fixed v e) :
    ∃ ws, convertAll vs i e = .ok ws ∧ ((∀ v ∈ vs, v.Canonical) → ws = vs) := by
  induction vs generalizing i with
  | nil => exact ⟨[], rfl, fun _ => rfl⟩
  | cons v vs ih =>
    obtain ⟨w, hw, eq⟩ := each v (by simp)
    obtain ⟨ws, hws, eqs⟩ := ih (i + 1) fun v hv => each v (by simp [hv])
    refine ⟨w :: ws, ?_, fun canonical => ?_⟩
    · simp only [convertAll, bind_eq_ok, within_eq_ok]
      exact ⟨w, hw, ws, hws, rfl⟩
    · rw [eq (canonical v (by simp)), eqs fun v hv => canonical v (by simp [hv])]

theorem convertEntries_of_fixed {es : List (String × Value)} {e : Ty}
    (each : ∀ x ∈ es, Fixed x.2 e) :
    ∃ ws, convertEntries es e = .ok ws ∧ ((∀ x ∈ es, x.2.Canonical) → ws = es) := by
  induction es with
  | nil => exact ⟨[], rfl, fun _ => rfl⟩
  | cons x es ih =>
    obtain ⟨w, hw, eq⟩ := each x (by simp)
    obtain ⟨ws, hws, eqs⟩ := ih fun x hx => each x (by simp [hx])
    refine ⟨(x.1, w) :: ws, ?_, fun canonical => ?_⟩
    · simp only [convertEntries, bind_eq_ok, within_eq_ok]
      exact ⟨w, hw, ws, hws, rfl⟩
    · rw [eq (canonical x (by simp)), eqs fun x hx => canonical x (by simp [hx])]

theorem convertEach_types (vs : List Value) (i : Nat) :
    convertEach vs i (vs.map ty) = .ok vs := by
  induction vs generalizing i with
  | nil => rfl
  | cons v vs ih =>
    simp only [List.map_cons, convertEach, bind_eq_ok, within_eq_ok]
    exact ⟨v, convert_of_same (.inr rfl), vs, ih (i + 1), rfl⟩

theorem convertAttrs_types {es all : List (String × Value)}
    (found : ∀ x ∈ es, all.lookup x.1 = some x.2) :
    convertAttrs (converters all) (es.map fun x => (x.1, x.2.ty)) = .ok es := by
  induction es with
  | nil => rfl
  | cons x es ih =>
    have rest := ih fun y hy => found y (by simp [hy])
    simp only [List.map_cons, convertAttrs, lookup_converters, found x (by simp), Option.map_some,
      bind_eq_ok, within_eq_ok]
    exact ⟨x.2, convert_of_same (.inr rfl), es, rest, rfl⟩

/-- A well-formed value that matches a type converts to it. -/
theorem fixed_of_matches {v : Value} {t : Ty} (wf : v.WellFormed) (canonical : t.Canonical)
    (typed : Matches v.ty t) : Fixed v t := by
  induction v generalizing t with
  | null s m => exact fixed_of_convertTo canonical typed rfl fun _ => rfl
  | unknown s r m => exact fixed_of_convertTo canonical typed rfl fun _ => rfl
  | scalar s m =>
    refine fixed_of_same ?_
    cases t with
    | dynamic => exact .inl rfl
    | string | number | bool => exact .inr typed
    | _ => cases s <;> simp [Matches, ty, Scalar.ty] at typed
  | sequence k es m ih =>
    cases wf with
    | @list e _ _ elem each parts =>
      obtain ⟨ws, hws, eqs⟩ :=
        convertAll_of_fixed 0 fun v hv => ih v hv (parts v hv) elem (each v hv)
      have content : convertTo (.list e) (.sequence (.list e) es m) =
          .ok ((list e ws).withMarks m) := by
        simp only [convertTo, hws]
        rfl
      refine fixed_of_convertTo canonical typed content fun whole => ?_
      cases whole with
      | sequence _ parts =>
        rw [eqs parts]
        exact congrArg (sequence _ es) (MarkSet.empty_union m)
    | @set e _ _ elem each parts =>
      obtain ⟨ws, hws, eqs⟩ :=
        convertAll_of_fixed 0 fun v hv => ih v hv (parts v hv) elem (each v hv)
      have content : convertTo (.set e) (.sequence (.set e) es m) =
          .ok ((set e ws).withMarks m) := by
        simp only [convertTo, hws]
        rfl
      refine fixed_of_convertTo canonical typed content fun whole => ?_
      cases whole with
      | sequence content parts =>
        rw [eqs parts]
        exact (content e rfl).set_withMarks e m
    | tuple _ =>
      have shape : Value.ty (.sequence .tuple es m) = .tuple (es.map ty) := by simp [ty]
      have content : convertTo (.tuple (es.map ty)) (.sequence .tuple es m) =
          .ok ((tuple es).withMarks m) := by
        simp only [convertTo, List.length_map, ne_eq, not_true_eq_false, if_false,
          convertEach_types]
        rfl
      refine fixed_of_convertTo canonical typed (shape ▸ content) fun _ => ?_
      exact congrArg (sequence _ es) (MarkSet.empty_union m)
  | mapping k es m ih =>
    have self := Dict.ofList_of_sorted wf.sorted
    cases wf with
    | @map e _ _ elem _ each parts =>
      obtain ⟨ws, hws, eqs⟩ :=
        convertEntries_of_fixed fun x hx => ih x hx (parts x hx) elem (each x hx)
      have content : convertTo (.map e) (.mapping (.map e) es m) =
          .ok ((map e ws).withMarks m) := by
        simp only [convertTo, hws]
        rfl
      refine fixed_of_convertTo canonical typed content fun whole => ?_
      cases whole with
      | mapping parts =>
        rw [eqs parts, map, self]
        exact congrArg (mapping _ es) (MarkSet.empty_union m)
    | object sorted _ =>
      have shape : Value.ty (.mapping .object es m) = .object (es.map fun x => (x.1, x.2.ty)) := by
        simp [ty]
      have attrs := convertAttrs_types fun x hx => Dict.lookup_of_mem sorted (k := x.1) hx
      have content : convertTo (.object (es.map fun x => (x.1, x.2.ty))) (.mapping .object es m) =
          .ok ((object es).withMarks m) := by
        simp only [convertTo, attrs]
        rfl
      refine fixed_of_convertTo canonical typed (shape ▸ content) fun _ => ?_
      rw [object, self]
      exact congrArg (mapping _ es) (MarkSet.empty_union m)

end MarkedValues.Value
