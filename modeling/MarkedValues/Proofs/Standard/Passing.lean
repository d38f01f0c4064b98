import MarkedValues.Proofs.Call.MarkFlow
import MarkedValues.Proofs.Standard.Arguments
import MarkedValues.Proofs.Value.Unmarked
import MarkedValues.Standard.Choice
import MarkedValues.Standard.Mappings
import MarkedValues.Standard.Scanning
import MarkedValues.Standard.SetAlgebra

/-!
Functions whose results are put together from parts of their arguments. Where the arguments are free
of marks, so are their parts, and whatever is made of these.
-/
namespace MarkedValues.Standard

open Outcomes
open Value (Unmarked)

section

variable {args : List Value} (clean : ∀ a ∈ args, a.Unmarked)

include clean

theorem argument_unmarked (i : Nat) : (argument args i).Unmarked := by
  unfold argument
  rw [List.getD_eq_getElem?_getD]
  cases h : args[i]? with
  | none => rfl
  | some a => exact clean a (List.mem_of_getElem? h)

theorem elements_unmarked (i : Nat) : ∀ w ∈ (argument args i).elements, w.Unmarked :=
  (argument_unmarked clean i).elements

theorem entries_unmarked (i : Nat) : ∀ x ∈ (argument args i).entries, x.2.Unmarked :=
  (argument_unmarked clean i).entries

end

theorem convertAt_unmarked {v : Value} (h : v.Unmarked) (i : Nat) (t : Ty) :
    Gives Unmarked (convertAt i v t) := by
  intro w hw
  exact h.convert (mapError_eq_ok.1 hw)

theorem sequenceLike_unmarked {vs : List Value} (h : ∀ v ∈ vs, v.Unmarked) (t : Ty) :
    (sequenceLike t vs).Unmarked := by
  unfold sequenceLike
  split
  · exact Value.unmarked_list.2 h
  · exact Value.unmarked_tuple.2 h

theorem concat_unmarked : concat.BodyUnmarked := by
  intro ctx args ret clean
  simp only [concat, concatBody]
  split
  · next e =>
    refine gives_bind.2 fun parts hparts => gives_ok.2 (Value.unmarked_list.2 ?_)
    have each : Gives (fun ps => ∀ p ∈ ps, ∀ v ∈ p, v.Unmarked)
        ((numbered 0 args).mapM fun x => convertElements x.1 e x.2.elements) := by
      refine gives_mapM fun x hx => gives_mapM fun v hv => convertAt_unmarked ?_ _ _
      exact (clean x.2 (mem_numbered hx)).elements v hv
    intro v hv
    obtain ⟨p, hp, hv⟩ := List.mem_flatten.1 hv
    exact each parts hparts p hp v hv
  · refine gives_ok.2 (Value.unmarked_tuple.2 fun v hv => ?_)
    obtain ⟨a, ha, hv⟩ := List.mem_flatMap.1 hv
    exact (clean a ha).elements v hv

theorem mem_distinctFrom {kept vs : List Value} {w : Value} (h : w ∈ distinctFrom kept vs) :
    w ∈ vs := by
  induction vs generalizing kept with
  | nil => cases h
  | cons v vs ih =>
    rw [distinctFrom] at h
    split at h
    · exact List.mem_cons_of_mem v (ih h)
    · rcases List.mem_cons.1 h with rfl | h
      · exact List.mem_cons_self
      · exact List.mem_cons_of_mem v (ih h)

theorem distinct_unmarked : distinct.BodyUnmarked := by
  intro ctx args ret clean
  simp only [distinct, gives_ite]
  refine ⟨fun _ => gives_ok.2 (Value.unmarked_list.2 fun v hv => ?_), fun _ => by simp⟩
  exact elements_unmarked clean 0 v (mem_distinctFrom hv)

theorem compact_unmarked : compact.BodyUnmarked := by
  intro ctx args ret clean
  simp only [compact, gives_ite]
  refine ⟨fun _ => gives_ok.2 (Value.unmarked_list.2 fun v hv => ?_), fun _ => by simp⟩
  exact elements_unmarked clean 0 v (List.mem_of_mem_filter hv)

theorem sort_unmarked : sort.BodyUnmarked := by
  intro ctx args ret _
  simp only [sort, sortBody, gives_ite]
  refine ⟨fun _ => by simp, fun _ => ?_⟩
  split <;> simp

theorem mem_chunks {size fuel : Nat} {vs piece : List Value} (h : piece ∈ chunks size fuel vs) :
    ∀ w ∈ piece, w ∈ vs := by
  induction fuel generalizing vs with
  | zero => cases h
  | succ fuel ih =>
    cases vs with
    | nil => cases h
    | cons v vs =>
      rcases List.mem_cons.1 h with rfl | h
      · exact fun w hw => List.mem_of_mem_take hw
      · exact fun w hw => List.mem_of_mem_drop (ih h w hw)

theorem chunklist_unmarked : chunklist.BodyUnmarked := by
  intro ctx args ret clean
  simp only [chunklist, chunklistBody, gives_bind, gives_ite]
  intro size _
  refine ⟨fun _ => by simp, fun _ => gives_ok.2 (Value.unmarked_list.2 ?_)⟩
  simp only [List.forall_mem_map, Value.unmarked_list]
  intro piece hpiece w hw
  apply elements_unmarked clean 0 w
  split at hpiece
  · rwa [List.mem_singleton.1 hpiece] at hw
  · exact mem_chunks hpiece w hw

theorem reverse_unmarked : reverse.BodyUnmarked := by
  intro ctx args ret clean
  refine gives_ok.2 (sequenceLike_unmarked (fun v hv => ?_) ret)
  exact elements_unmarked clean 0 v (List.mem_reverse.1 hv)

theorem element_unmarked : element.BodyUnmarked := by
  intro ctx args ret clean
  simp only [element, elementBody, gives_bind, gives_ite]
  refine ⟨fun _ => by simp, fun _ i _ => ⟨fun _ => by simp, fun _ => gives_ok.2 ?_⟩⟩
  exact argument_unmarked (elements_unmarked clean 0) _

theorem slice_unmarked : slice.BodyUnmarked := by
  intro ctx args ret clean
  simp only [slice, sliceBody, gives_bind]
  intro bounds _
  refine gives_ok.2 (sequenceLike_unmarked (fun v hv => ?_) ret)
  exact elements_unmarked clean 0 v (List.mem_of_mem_take (List.mem_of_mem_drop hv))

theorem leavesOfAll_eq_flatMap (vs : List Value) : leavesOfAll vs = vs.flatMap leaves := by
  induction vs with
  | nil => rfl
  | cons v vs ih => simp [leavesOfAll, ih]

theorem leaves_unmarked {v : Value} (h : v.Unmarked) : ∀ w ∈ leaves v, w.Unmarked := by
  induction v with
  | sequence k es m ih =>
    intro w hw
    rw [leaves, leavesOfAll_eq_flatMap] at hw
    obtain ⟨v, hv, hw⟩ := List.mem_flatMap.1 hw
    exact ih v hv ((Value.unmarked_sequence.1 h).2 v hv) w hw
  | _ =>
    intro w hw
    rw [leaves] at hw
    · exact List.mem_singleton.1 hw ▸ h
    · simp

theorem flatten_unmarked : flatten.BodyUnmarked := by
  intro ctx args ret clean
  simp only [flatten, gives_ite]
  refine ⟨fun _ => gives_ok.2 (Value.unmarked_tuple.2 fun w hw => ?_), fun _ => by simp⟩
  rw [leavesOfAll_eq_flatMap] at hw
  obtain ⟨v, hv, hw⟩ := List.mem_flatMap.1 hw
  exact leaves_unmarked (elements_unmarked clean 0 v hv) w hw

theorem mem_matchingValues {search kept : List Value} {pairs : List (Value × Value)}
    (h : matchingValues search pairs = some kept) : ∀ w ∈ kept, ∃ key, (w, key) ∈ pairs := by
  induction pairs generalizing kept with
  | nil =>
    cases h
    simp
  | cons pair pairs ih =>
    obtain ⟨v, key⟩ := pair
    simp only [matchingValues, Option.bind_eq_bind, Option.bind_eq_some_iff] at h
    obtain ⟨found, _, others, hothers, heq⟩ := h
    cases heq
    have later : ∀ w ∈ others, ∃ key', (w, key') ∈ (v, key) :: pairs := by
      intro w hw
      obtain ⟨key', mem⟩ := ih hothers w hw
      exact ⟨key', List.mem_cons_of_mem _ mem⟩
    intro w hw
    split at hw
    · rcases List.mem_cons.1 hw with rfl | hw
      · exact ⟨key, List.mem_cons_self⟩
      · exact later w hw
    · exact later w hw

theorem matchkeys_unmarked : matchkeys.BodyUnmarked := by
  intro ctx args ret clean
  simp only [matchkeys, matchkeysBody, gives_ite, gives_bind]
  refine ⟨fun _ => gives_error, fun _ common _ keys _ searchset _ => ⟨fun _ => by simp, fun _ => ?_⟩⟩
  refine ⟨fun _ => by simp, fun _ => ?_⟩
  split
  · next kept hkept =>
    refine gives_ok.2 (Value.unmarked_list.2 fun v hv => ?_)
    obtain ⟨key, mem⟩ := mem_matchingValues hkept v hv
    exact elements_unmarked clean 0 v (List.of_mem_zip mem).1
  · simp

theorem keys_unmarked : keys.BodyUnmarked := by
  intro ctx args ret _
  refine gives_ok.2 (sequenceLike_unmarked (fun v hv => ?_) ret)
  obtain ⟨k, _, rfl⟩ := List.mem_map.1 hv
  exact Value.unmarked_string k

theorem values_unmarked : values.BodyUnmarked := by
  intro ctx args ret clean
  refine gives_ok.2 (sequenceLike_unmarked (fun v hv => ?_) ret)
  obtain ⟨x, hx, rfl⟩ := List.mem_map.1 hv
  exact entries_unmarked clean 0 x hx

theorem lookup_unmarked : lookup.BodyUnmarked := by
  intro ctx args ret clean
  simp only [lookup, lookupBody, gives_bind]
  intro key _
  split
  · next v found =>
    exact convertAt_unmarked (entries_unmarked clean 0 (key, v) (Dict.mem_of_lookup found)) 0 ret
  · next default _ found =>
    exact convertAt_unmarked (clean default (List.mem_of_getElem? found)) 2 ret
  · simp

theorem zipmap_unmarked : zipmap.BodyUnmarked := by
  intro ctx args ret clean
  simp only [zipmap, zipmapBody, gives_ite]
  refine ⟨fun _ => gives_error, fun _ => ⟨fun _ => by simp, fun _ => ?_⟩⟩
  split
  · simp
  · next names _ =>
    have parts : ∀ x ∈ names.zip (argument args 1).elements, x.2.Unmarked :=
      fun x hx => elements_unmarked clean 1 x.2 (List.of_mem_zip hx).2
    split
    · exact gives_ok.2 (Value.unmarked_map parts)
    · exact gives_ok.2 (Value.unmarked_object parts)

theorem convertValues_unmarked {e : Ty} {entries : Dict Value}
    (clean : ∀ x ∈ entries, x.2.Unmarked) :
    Gives (fun d : Dict Value => ∀ x ∈ d, x.2.Unmarked) (convertValues e entries) := by
  refine gives_mapM fun x hx => gives_bind.2 fun w hw => gives_ok.2 ?_
  exact (clean x hx).convert (mapError_eq_ok.1 hw)

theorem merge_unmarked : merge.BodyUnmarked := by
  intro ctx args ret clean
  simp only [merge, mergeBody]
  have parts : ∀ x ∈ Dict.ofList ((args.filter fun v => !v.isNull).flatMap Value.entries),
      x.2.Unmarked := by
    intro x hx
    obtain ⟨a, ha, hx⟩ := List.mem_flatMap.1 (Dict.mem_ofList hx)
    exact (clean a (List.mem_of_mem_filter ha)).entries x hx
  split
  · refine gives_bind.2 fun d hd => gives_ok.2 ?_
    exact Value.unmarked_map (convertValues_unmarked parts d hd)
  · exact gives_ok.2 (Value.unmarked_object parts)

theorem transpose_unmarked : transpose.BodyUnmarked := by
  intro ctx args ret _
  simp only [transpose, transposeBody, gives_ite]
  refine ⟨fun _ => by simp, fun _ => ?_⟩
  split
  · simp
  · refine gives_ok.2 (Value.unmarked_map fun x hx => ?_)
    obtain ⟨pair, _, rfl⟩ := List.mem_map.1 hx
    exact Value.unmarked_stringList _

theorem coalesceFrom_unmarked {ret : Ty} {i : Nat} {args : List Value}
    (clean : ∀ a ∈ args, a.Unmarked) : Gives Unmarked (coalesceFrom ret i args) := by
  induction args generalizing i with
  | nil => exact gives_error
  | cons a rest ih =>
    simp only [coalesceFrom, gives_bind, gives_ite]
    intro v hv
    have later := ih (i := i + 1) fun b hb => clean b (by simp [hb])
    have here := convertAt_unmarked (clean a (by simp)) i ret v hv
    exact ⟨fun _ => by simp, fun _ => ⟨fun _ => later, fun _ => gives_ok.2 here⟩⟩

theorem coalesce_unmarked : coalesce.BodyUnmarked :=
  fun _ _ _ clean => coalesceFrom_unmarked clean

theorem coalescelistFrom_unmarked {ret : Ty} {i : Nat} {args : List Value}
    (clean : ∀ a ∈ args, a.Unmarked) : Gives Unmarked (coalescelistFrom ret i args) := by
  induction args generalizing i with
  | nil => exact gives_error
  | cons a rest ih =>
    simp only [coalescelistFrom, gives_ite]
    have later := ih (i := i + 1) fun b hb => clean b (by simp [hb])
    have here := convertAt_unmarked (clean a (by simp)) i ret
    exact ⟨fun _ => by simp, fun _ => ⟨fun _ => here, fun _ => later⟩⟩

theorem coalescelist_unmarked : coalescelist.BodyUnmarked :=
  fun _ _ _ clean => coalescelistFrom_unmarked clean

/-- An operation that makes no elements of its own. -/
def Selects (op : SetOperation) : Prop := ∀ xs ys, ∀ w ∈ op xs ys, w ∈ xs ∨ w ∈ ys

theorem union_selects : Selects Value.union := by
  intro xs ys w hw
  exact List.mem_append.1 (Value.mem_normalize hw)

theorem intersection_selects : Selects Value.intersection := by
  intro xs ys w hw
  exact .inl (List.mem_of_mem_filter hw)

theorem subtract_selects : Selects Value.subtract := by
  intro xs ys w hw
  exact .inl (List.mem_of_mem_filter hw)

theorem symmetricDifference_selects : Selects Value.symmetricDifference := by
  intro xs ys w hw
  rcases List.mem_append.1 (Value.mem_normalize hw) with hw | hw
  · exact subtract_selects xs ys w hw
  · exact (subtract_selects ys xs w hw).symm

theorem combineFrom_unmarked {op : SetOperation} (selects : Selects op) {ret : Ty}
    {bearsUnknown : Bool} {i : Nat} {acc : Option (List Value)} {args : List Value}
    (clean : ∀ a ∈ args, a.Unmarked) (before : ∀ elems, acc = some elems → ∀ w ∈ elems, w.Unmarked) :
    Gives (fun r => ∀ elems, r = some elems → ∀ w ∈ elems, w.Unmarked)
      (combineFrom ret op bearsUnknown i acc args) := by
  induction args generalizing i acc with
  | nil =>
    refine gives_ok.2 fun elems heq => ?_
    cases heq
    cases acc with
    | none => simp
    | some elems => exact before elems rfl
  | cons a rest ih =>
    simp only [combineFrom, gives_bind, gives_ite]
    intro v hv
    have here := convertAt_unmarked (clean a (by simp)) i ret v hv
    refine ⟨fun _ => by simp, fun _ => ih (fun b hb => clean b (by simp [hb])) ?_⟩
    intro elems heq
    cases heq
    cases acc with
    | none => exact here.elements
    | some elems =>
      intro w hw
      rcases selects elems v.elements w hw with hw | hw
      · exact before elems rfl w hw
      · exact here.elements w hw

theorem setBody_unmarked {op : SetOperation} (selects : Selects op) (bearsUnknown : Bool)
    (ctx : Context) {args : List Value} {ret : Ty} (clean : ∀ a ∈ args, a.Unmarked) :
    Gives Unmarked (setBody op bearsUnknown ctx args ret) := by
  simp only [setBody, gives_bind]
  intro r hr
  cases r with
  | none => simp
  | some elems =>
    have content := combineFrom_unmarked selects clean (by simp) (some elems) hr elems rfl
    exact gives_ok.2 (Value.unmarked_set content)

theorem setFunction_unmarked (name : String) {op : SetOperation} (selects : Selects op)
    (bearsUnknown : Bool) : (setFunction name op bearsUnknown).BodyUnmarked :=
  fun ctx _ _ clean => setBody_unmarked selects bearsUnknown ctx clean

theorem setsubtract_unmarked : setsubtract.BodyUnmarked :=
  fun ctx _ _ clean => setBody_unmarked subtract_selects false ctx clean

end MarkedValues.Standard
