import MarkedValues.Proofs.Value.Sameness

/-!
Unknowns and conversions. A conversion makes none, and if it keeps all parts, an unknown anywhere in
the value is still there afterwards. Without unknowns, equality always has an answer.
-/
namespace MarkedValues

@[simp] theorem Verdict.ofBool_ne_undecided (b : Bool) : Verdict.ofBool b ≠ .undecided := by
  cases b <;> nofun

theorem Verdict.and_ne_undecided {a b : Verdict} (ha : a ≠ .undecided) (hb : b ≠ .undecided) :
    a.and b ≠ .undecided := by
  cases a <;> cases b <;> simp_all [Verdict.and]

namespace Value

open Ty (Keeps)

theorem isWhollyKnown_setMarks (v : Value) (m : MarkSet) :
    (v.setMarks m).isWhollyKnown = v.isWhollyKnown := by
  cases v <;> rfl

@[simp] theorem isWhollyKnown_withMarks (v : Value) (m : MarkSet) :
    (v.withMarks m).isWhollyKnown = v.isWhollyKnown :=
  isWhollyKnown_setMarks v _

theorem isWhollyKnown_sequence {k : SequenceKind} {es : List Value} {m : MarkSet} :
    isWhollyKnown (.sequence k es m) = true ↔ ∀ v ∈ es, v.isWhollyKnown = true := by
  simp [isWhollyKnown]

theorem isWhollyKnown_elements {v : Value} (whole : v.isWhollyKnown = true) :
    ∀ w ∈ v.elements, w.isWhollyKnown = true := by
  cases v with
  | sequence k es m => exact isWhollyKnown_sequence.1 whole
  | _ => exact nofun

theorem isWhollyKnown_mapping {k : MappingKind} {es : List (String × Value)} {m : MarkSet} :
    isWhollyKnown (.mapping k es m) = true ↔
      ∀ v ∈ Dict.values es, v.isWhollyKnown = true := by
  simp only [isWhollyKnown, entriesWhollyKnown_eq_all, List.all_eq_true, Dict.values,
    List.forall_mem_map]

theorem isWhollyKnown_of_set {e : Ty} {vs : List Value} (whole : (set e vs).isWhollyKnown = true) :
    ∀ v ∈ vs, v.isWhollyKnown = true := by
  intro v hv
  have erased := isWhollyKnown_of_normalize (isWhollyKnown_sequence.1 whole) v.erase
    (List.mem_map_of_mem hv)
  rwa [Completes.isWhollyKnown_erase] at erased

theorem isWhollyKnown_set {e : Ty} {vs : List Value} (whole : ∀ v ∈ vs, v.isWhollyKnown = true) :
    (set e vs).isWhollyKnown = true := by
  refine isWhollyKnown_sequence.2 fun w hw => ?_
  obtain ⟨v, hv, rfl⟩ := List.mem_map.1 (mem_normalize hw)
  exact (Completes.isWhollyKnown_erase v).trans (whole v hv)

theorem isWhollyKnown_dict {k : MappingKind} {es : List (String × Value)} {m : MarkSet}
    (whole : ∀ x ∈ es, x.2.isWhollyKnown = true) :
    isWhollyKnown (.mapping k (Dict.ofList es) m) = true :=
  isWhollyKnown_mapping.2 (List.forall_mem_map.2 fun x hx => whole x (Dict.mem_ofList hx))

theorem isWhollyKnown_convert {v w : Value} {t : Ty} (whole : v.isWhollyKnown = true)
    (h : convert v t = .ok w) : w.isWhollyKnown = true := by
  induction v generalizing t w with
  | null s m =>
    cases converts_of_convert h with
    | same _ => rfl
    | null _ => rfl
  | unknown s r m => cases whole
  | scalar s m =>
    cases converts_of_convert h with
    | same _ => rfl
    | scalar _ hw =>
      obtain ⟨c, rfl, _⟩ := scalar_of_convertScalar hw
      rfl
  | sequence k es m ih =>
    have parts := isWhollyKnown_sequence.1 whole
    have alike : ∀ {e : Ty} {ws : List Value},
        List.Forall₂ (fun v w => Value.convert v e = .ok w) es ws →
        ∀ w ∈ ws, w.isWhollyKnown = true := by
      intro e ws converted w hw
      obtain ⟨v, hv, hvw⟩ := Lists.exists_of_mem_right converted hw
      exact ih v hv (parts v hv) hvw
    cases converts_of_convert h with
    | same _ => exact whole
    | list _ converted =>
      rw [isWhollyKnown_withMarks]
      exact isWhollyKnown_sequence.2 (alike converted)
    | set _ converted =>
      rw [isWhollyKnown_withMarks]
      exact isWhollyKnown_set (alike converted)
    | tuple _ converted =>
      rw [isWhollyKnown_withMarks]
      refine isWhollyKnown_sequence.2 (forall_of_convertedEach ?_ converted)
      exact fun v hv t _ w hw => ih v hv (parts v hv) hw
  | mapping k es m ih =>
    have parts : ∀ x ∈ es, x.2.isWhollyKnown = true :=
      List.forall_mem_map.1 (isWhollyKnown_mapping.1 whole)
    cases converts_of_convert h with
    | same _ => exact whole
    | map _ converted =>
      rw [isWhollyKnown_withMarks]
      refine isWhollyKnown_dict fun x hx => ?_
      obtain ⟨y, hy, _, hyx⟩ := Lists.exists_of_mem_right converted hx
      exact ih y hy (parts y hy) hyx
    | object _ converted _ =>
      rw [isWhollyKnown_withMarks]
      refine isWhollyKnown_dict fun x hx => ?_
      obtain ⟨a, _, _, v, found, hv⟩ := Lists.exists_of_mem_right converted hx
      have mem := Dict.mem_of_lookup found
      exact ih _ mem (parts _ mem) hv

theorem isWhollyKnown_of_keptParts {vs ws : List Value} (parts : List.Forall₂ KeptPart vs ws)
    (each : ∀ v ∈ vs, ∀ t w, t.Canonical → Keeps v.ty t → convert v t = .ok w →
      w.isWhollyKnown = true → v.isWhollyKnown = true)
    (whole : ∀ w ∈ ws, w.isWhollyKnown = true) : ∀ v ∈ vs, v.isWhollyKnown = true := by
  intro v hv
  obtain ⟨w, hw, t, canonical, keeps, hconv⟩ := Lists.exists_of_mem_right parts.flip hv
  exact each v hv t w canonical keeps hconv (whole w hw)

/-- What is wholly known after a conversion that keeps every part was so before. -/
theorem isWhollyKnown_of_convert {v w : Value} {t : Ty} (wf : v.WellFormed) (canonical : t.Canonical)
    (keeps : Keeps v.ty t) (h : convert v t = .ok w) (whole : w.isWhollyKnown = true) :
    v.isWhollyKnown = true := by
  induction v generalizing t w with
  | null s m => rfl
  | unknown s r m =>
    have unknown := isUnknown_convert h
    rw [Completes.isUnknown_of_isWhollyKnown whole] at unknown
    cases unknown
  | scalar s m => rfl
  | sequence k es m ih =>
    rcases parts_of_sequence wf canonical keeps (converts_of_convert h) with rfl | ⟨ws, parts, shape⟩
    · exact whole
    · have known : ∀ w ∈ ws, w.isWhollyKnown = true := by
        rcases shape with ⟨e, rfl⟩ | ⟨e, rfl⟩ | rfl <;> rw [isWhollyKnown_withMarks] at whole
        · exact isWhollyKnown_sequence.1 whole
        · exact isWhollyKnown_of_set whole
        · exact isWhollyKnown_sequence.1 whole
      refine isWhollyKnown_sequence.2 (isWhollyKnown_of_keptParts parts (fun v hv t w => ?_) known)
      exact ih v hv (wf.elements v hv)
  | mapping k es m ih =>
    rcases parts_of_mapping wf canonical keeps (converts_of_convert h) with
      rfl | ⟨ws, keys, parts, shape⟩
    · exact whole
    · have sorted : Dict.Sorted ws := wf.sorted.of_keys_eq keys
      have known : ∀ w ∈ Dict.values ws, w.isWhollyKnown = true := by
        rcases shape with ⟨e, rfl⟩ | rfl <;> rw [isWhollyKnown_withMarks] at whole
        · rw [map, Dict.ofList_of_sorted sorted] at whole
          exact isWhollyKnown_mapping.1 whole
        · rw [object, Dict.ofList_of_sorted sorted] at whole
          exact isWhollyKnown_mapping.1 whole
      refine isWhollyKnown_mapping.2 (isWhollyKnown_of_keptParts parts ?_ known)
      exact List.forall_mem_map.2 fun x hx t w => ih x hx (wf.entries x hx)

theorem compareAll_ne_undecided {xs ys : List Value}
    (each : ∀ x ∈ xs, ∀ y ∈ ys, x.compareTo y ≠ .undecided) : compareAll xs ys ≠ .undecided := by
  induction xs generalizing ys with
  | nil => cases ys <;> nofun
  | cons x xs ih =>
    cases ys with
    | nil => nofun
    | cons y ys =>
      have later : compareAll xs ys ≠ .undecided := ih fun x hx y hy =>
        each x (List.mem_cons_of_mem _ hx) y (List.mem_cons_of_mem _ hy)
      exact Verdict.and_ne_undecided (each x List.mem_cons_self y List.mem_cons_self) later

theorem compareTo_ne_undecided {a b : Value} (ha : a.isWhollyKnown = true)
    (hb : b.isWhollyKnown = true) : a.compareTo b ≠ .undecided := by
  induction a generalizing b with
  | null t m =>
    cases b with
    | unknown u n l => cases hb
    | _ => exact nofun
  | unknown t n m => cases ha
  | scalar s m =>
    cases b with
    | unknown u n l => cases hb
    | scalar t l => exact Verdict.ofBool_ne_undecided _
    | _ => exact nofun
  | sequence k xs m ih =>
    cases b with
    | unknown u n l => cases hb
    | sequence l ys n =>
      have wholeLeft := isWhollyKnown_sequence.1 ha
      have wholeRight := isWhollyKnown_sequence.1 hb
      by_cases same : Value.ty (.sequence k xs m) = Value.ty (.sequence l ys n)
      · by_cases ordered : ∀ e, k ≠ .set e
        · rw [compareTo_sequence same ordered]
          exact compareAll_ne_undecided fun x hx y hy =>
            ih x hx (wholeLeft x hx) (wholeRight y hy)
        · simp only [ne_eq, not_forall, not_not] at ordered
          obtain ⟨e, rfl⟩ := ordered
          have whole : (xs.all isWhollyKnown && ys.all isWhollyKnown) = true := by
            rw [Bool.and_eq_true, List.all_eq_true, List.all_eq_true]
            exact ⟨wholeLeft, wholeRight⟩
          rw [compareTo_set same, if_pos whole]
          exact Verdict.ofBool_ne_undecided _
      · rw [compareTo_of_ty_ne same]
        exact nofun
    | _ => exact nofun
  | mapping k xs m ih =>
    cases b with
    | unknown u n l => cases hb
    | mapping l ys n =>
      have wholeLeft := isWhollyKnown_mapping.1 ha
      have wholeRight := isWhollyKnown_mapping.1 hb
      by_cases same : Value.ty (.mapping k xs m) = Value.ty (.mapping l ys n)
      · by_cases keys : Dict.keys xs = Dict.keys ys
        · rw [compareTo_mapping same keys]
          refine compareAll_ne_undecided (List.forall_mem_map.2 fun x hx y hy => ?_)
          exact ih x hx (wholeLeft x.2 (List.mem_map_of_mem hx)) (wholeRight y hy)
        · rw [compareTo_of_keys_ne keys]
          exact nofun
      · rw [compareTo_of_mapping_ty_ne same]
        exact nofun
    | _ => exact nofun

end Value

end MarkedValues
