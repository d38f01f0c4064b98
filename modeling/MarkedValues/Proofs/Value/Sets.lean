import MarkedValues.Proofs.Value.Ordering
import MarkedValues.Proofs.Value.Sameness

/-!
The content of sets. Sorting by a total preorder and merging neighbours that are the same leaves
nothing to be sorted or merged, so the content that a set is built with is canonical; and so is
every set in what the library builds and converts.
-/
namespace MarkedValues.Value

open MarkedValues.Lists

def Below (v w : Value) : Prop := (order v w).isLE = true

theorem Below.trans {u v w : Value} (huv : Below u v) (hvw : Below v w) : Below u w :=
  Std.TransCmp.isLE_trans huv hvw

theorem below_of_not {v w : Value} (h : ¬ Below v w) : Below w v := by
  unfold Below at h ⊢
  rw [order_swap w v]
  cases ho : order v w with
  | lt => simp [ho] at h
  | eq => simp [ho] at h
  | gt => rfl

theorem insertOrdered_of_below {v w : Value} {ws : List Value} (h : Below v w) :
    insertOrdered v (w :: ws) = v :: w :: ws :=
  if_pos h

theorem insertOrdered_of_not_below {v w : Value} {ws : List Value} (h : ¬ Below v w) :
    insertOrdered v (w :: ws) = w :: insertOrdered v ws :=
  if_neg h

theorem pairwise_insertOrdered {v : Value} {vs : List Value} (h : vs.Pairwise Below) :
    (insertOrdered v vs).Pairwise Below := by
  induction h with
  | nil => exact List.pairwise_singleton Below v
  | @cons w ws first rest ih =>
    by_cases below : Below v w
    · rw [insertOrdered_of_below below]
      refine .cons (List.forall_mem_cons.2 ⟨below, fun u hu => ?_⟩) (.cons first rest)
      exact below.trans (first u hu)
    · rw [insertOrdered_of_not_below below]
      refine .cons (fun u hu => ?_) ih
      rcases List.mem_cons.1 ((perm_insertOrdered v ws).mem_iff.1 hu) with rfl | later
      · exact below_of_not below
      · exact first u later

theorem pairwise_sort (vs : List Value) : (sort vs).Pairwise Below := by
  induction vs with
  | nil => exact .nil
  | cons v vs ih => exact pairwise_insertOrdered ih

theorem sort_of_pairwise {vs : List Value} (h : vs.Pairwise Below) : sort vs = vs := by
  induction h with
  | nil => rfl
  | @cons v vs first _ ih =>
    have here : sort (v :: vs) = insertOrdered v vs := congrArg (insertOrdered v) ih
    rw [here]
    cases vs with
    | nil => rfl
    | cons w ws => exact insertOrdered_of_below (first w (by simp))

def KeptBehind (u v : Value) : Prop := (v.isKnown && v.same u) = false

theorem dropRepeats_sublist (last : Value) (vs : List Value) :
    (dropRepeats last vs).Sublist vs := by
  induction vs generalizing last with
  | nil => exact .slnil
  | cons v vs ih =>
    rw [dropRepeats]
    split
    · exact (ih last).cons v
    · exact (ih v).cons_cons v

theorem mergeRuns_sublist (vs : List Value) : (mergeRuns vs).Sublist vs := by
  cases vs with
  | nil => exact .slnil
  | cons v vs => exact (dropRepeats_sublist v vs).cons_cons v

theorem isChain_dropRepeats (last : Value) (vs : List Value) :
    (last :: dropRepeats last vs).IsChain KeptBehind := by
  induction vs generalizing last with
  | nil => exact .singleton last
  | cons v vs ih =>
    rw [dropRepeats]
    split
    · exact ih last
    · next kept => exact .cons_cons (by simpa [KeptBehind] using kept) (ih v)

theorem dropRepeats_of_isChain {last : Value} {vs : List Value}
    (h : (last :: vs).IsChain KeptBehind) : dropRepeats last vs = vs := by
  induction vs generalizing last with
  | nil => rfl
  | cons v vs ih =>
    cases h with
    | cons_cons kept rest =>
      rw [dropRepeats, if_neg (by simpa [KeptBehind] using kept), ih rest]

theorem mergeRuns_mergeRuns (vs : List Value) : mergeRuns (mergeRuns vs) = mergeRuns vs := by
  cases vs with
  | nil => rfl
  | cons v vs => exact congrArg (v :: ·) (dropRepeats_of_isChain (isChain_dropRepeats v vs))

theorem pairwise_normalize (vs : List Value) : (normalize vs).Pairwise Below :=
  (pairwise_sort vs).sublist (mergeRuns_sublist (sort vs))

/-- The content of a set is as it would be built again. -/
theorem normalize_normalize (vs : List Value) : normalize (normalize vs) = normalize vs := by
  have sorted : sort (normalize vs) = normalize vs := sort_of_pairwise (pairwise_normalize vs)
  calc normalize (normalize vs) = mergeRuns (normalize vs) := congrArg mergeRuns sorted
    _ = normalize vs := mergeRuns_mergeRuns (sort vs)

section

variable {e : Ty} {vs : List Value} {es : List (String × Value)}

theorem setContent_erased (vs : List Value) : SetContent (normalize (vs.map erase)) where
  unmarked := by
    intro v hv
    obtain ⟨w, _, rfl⟩ := List.mem_map.1 (mem_normalize hv)
    exact unmarked_erase w
  normal := normalize_normalize _

/-- What the constructors of values build is canonical when its parts are. -/
theorem canonical_set (parts : ∀ v ∈ vs, v.Canonical) : (set e vs).Canonical := by
  refine .sequence (fun _ _ => setContent_erased vs) fun v hv => ?_
  obtain ⟨w, hw, rfl⟩ := List.mem_map.1 (mem_normalize hv)
  exact (parts w hw).erase

theorem canonical_list (parts : ∀ v ∈ vs, v.Canonical) : (list e vs).Canonical :=
  .sequence (by simp) parts

theorem canonical_tuple (parts : ∀ v ∈ vs, v.Canonical) : (tuple vs).Canonical :=
  .sequence (by simp) parts

theorem canonical_map (parts : ∀ x ∈ es, x.2.Canonical) : (map e es).Canonical :=
  .mapping fun x hx => parts x (Dict.mem_ofList hx)

theorem canonical_object (parts : ∀ x ∈ es, x.2.Canonical) : (object es).Canonical :=
  .mapping fun x hx => parts x (Dict.mem_ofList hx)

end

theorem Canonical.withMarks {v : Value} (h : v.Canonical) (m : MarkSet) :
    (v.withMarks m).Canonical := by
  cases h with
  | null => exact .null
  | unknown => exact .unknown
  | scalar => exact .scalar
  | sequence content parts => exact .sequence content parts
  | mapping parts => exact .mapping parts

/-- What a canonical value converts to is canonical. -/
theorem Canonical.convert {v w : Value} {t : Ty} (canonical : v.Canonical)
    (h : v.convert t = .ok w) : w.Canonical := by
  induction v generalizing t w with
  | null s m =>
    cases converts_of_convert h with
    | same _ => exact canonical
    | null _ => exact .null
  | unknown s r m =>
    cases converts_of_convert h with
    | same _ => exact canonical
    | unknown _ => exact .unknown
  | scalar s m =>
    cases converts_of_convert h with
    | same _ => exact canonical
    | scalar _ hw =>
      obtain ⟨c, rfl, _⟩ := scalar_of_convertScalar hw
      exact Canonical.scalar.withMarks m
  | sequence k es m ih =>
    cases canonical with
    | sequence content parts =>
      have alike : ∀ {e : Ty} {ws : List Value},
          List.Forall₂ (fun v w => Value.convert v e = .ok w) es ws → ∀ w ∈ ws, w.Canonical := by
        intro e ws converted w hw
        obtain ⟨v, hv, hvw⟩ := exists_of_mem_right converted hw
        exact ih v hv (parts v hv) hvw
      cases converts_of_convert h with
      | same _ => exact .sequence content parts
      | list _ converted => exact (canonical_list (alike converted)).withMarks m
      | set _ converted => exact (canonical_set (alike converted)).withMarks m
      | tuple _ converted =>
        refine (canonical_tuple (forall_of_convertedEach ?_ converted)).withMarks m
        exact fun v hv t _ w hw => ih v hv (parts v hv) hw
  | mapping k es m ih =>
    cases canonical with
    | mapping parts =>
      cases converts_of_convert h with
      | same _ => exact .mapping parts
      | map _ converted =>
        refine (canonical_map fun x hx => ?_).withMarks m
        obtain ⟨y, hy, _, hyx⟩ := exists_of_mem_right converted hx
        exact ih y hy (parts y hy) hyx
      | object _ converted _ =>
        refine (canonical_object fun x hx => ?_).withMarks m
        obtain ⟨a, _, _, v, found, hv⟩ := exists_of_mem_right converted hx
        have mem := Dict.mem_of_lookup found
        exact ih _ mem (parts _ mem) hv

theorem Completes.canonical {fits : Ty → MarkSet → Value → Prop} {v v' : Value}
    (fit : ∀ t m w, fits t m w → w.Canonical) (canonical : v.Canonical)
    (h : Completes fits v v') : v'.Canonical := by
  induction v generalizing v' with
  | null t m =>
    cases h with
    | null => exact .null
  | unknown t r m =>
    cases h with
    | unknown _ _ fits => exact fit t m v' fits
  | scalar s m =>
    cases h with
    | scalar => exact .scalar
  | sequence k es m ih =>
    cases canonical with
    | sequence _ parts =>
      have resolved : ∀ {es' : List Value}, List.Forall₂ (Completes fits) es es' →
          ∀ w ∈ es', w.Canonical := by
        intro es' completed w hw
        obtain ⟨v, hv, hvw⟩ := exists_of_mem_right completed hw
        exact ih v hv (parts v hv) hvw
      cases h with
      | list completed => exact .sequence (by simp) (resolved completed)
      | set completed => exact (canonical_set (resolved completed)).withMarks m
      | tuple completed => exact .sequence (by simp) (resolved completed)
  | mapping k es m ih =>
    cases canonical with
    | mapping parts =>
      cases h with
      | mapping _ completed =>
        refine .mapping (List.forall_mem_map.1 fun w hw => ?_)
        obtain ⟨v, hv, hvw⟩ := exists_of_mem_right completed hw
        obtain ⟨x, hx, rfl⟩ := List.mem_map.1 hv
        exact ih x hx (parts x hx) hvw

end MarkedValues.Value
