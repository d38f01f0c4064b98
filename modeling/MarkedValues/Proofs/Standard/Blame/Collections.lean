import MarkedValues.Proofs.Standard.Blame.Scalars

/-!
Whom functions of collections, tuples and objects blame. Those that take any number of arguments
find the one at fault by its place in their list.
-/
namespace MarkedValues.Standard

open Outcomes
open CallError (Within within_ofFault within_ofMessage within_ofConversion)

variable {args : List Value} {n i : Nat}

theorem fails_requireSequence (hi : i < n) (v : Value) :
    Fails (Within n) (requireSequence v i) :=
  fails_ite (fun _ => fails_ok) fun _ => fails_blame _ hi

theorem distinct_careful : Careful distinct :=
  careful_of_rule rfl (fun _ _ => fails_ok) fun _ _ _ _ =>
    fails_ite (fun _ => fails_ok) fun _ => fails_ok

theorem compact_careful : Careful compact :=
  careful_of_fixed rfl fun _ _ _ _ => fails_ite (fun _ => fails_ok) fun _ => fails_ok

theorem sort_careful : Careful sort := by
  apply careful_of_fixed rfl
  intro ctx seen ret one
  simp only [sort, sortBody]
  apply fails_ite (fun _ => fails_ok)
  intro known
  split
  · exact fails_ok
  · exact fails_blame _ one

theorem chunklist_careful : Careful chunklist := by
  apply careful_of_rule rfl (fun _ _ => fails_ok)
  intro ctx seen ret (two : 2 ≤ seen.length)
  apply (fails_wholeAt seen 1).bind
  intro size _
  apply fails_check two
  intro positive
  exact fails_ok

theorem fails_found {α : Type} {args : List Value} {check : Nat × Value → Bool} {v : Value}
    (found : (numbered 0 args).find? check = some (i, v)) (message : String) :
    Fails (Within args.length) (blame i message : Outcome α) := by
  have inside := lt_of_mem_numbered (List.mem_of_find?_eq_some found)
  exact fails_blame message (by omega)

theorem fails_concatType (args : List Value) : Fails (Within args.length) (concatType args) := by
  unfold concatType
  apply fails_ite (fun _ => fails_error.2 (within_ofMessage _))
  intro nonempty
  split
  · next found => exact fails_found found _
  · dsimp only
    split
    · exact fails_ok
    · split <;> exact fails_ok

theorem concat_careful : Careful concat := by
  apply careful_of_rule rfl (fun seen _ => fails_concatType seen)
  intro ctx seen ret _
  simp only [concat, concatBody]
  split
  · next e =>
    have parts : ∀ x ∈ numbered 0 seen,
        Fails (Within seen.length) (convertElements x.1 e x.2.elements) := by
      intro x hx
      have inside := lt_of_mem_numbered hx
      exact fails_mapM fun v _ => fails_convertAt (by omega) v _
    apply (fails_mapM parts).bind
    intro elems _
    exact fails_ok
  · exact fails_ok

theorem reverse_careful : Careful reverse := by
  apply careful_of_rule rfl
  · intro seen one
    apply (fails_requireSequence one _).bind
    intro _ _
    split <;> exact fails_ok
  · exact fun _ _ _ _ => fails_ok

theorem element_careful : Careful element := by
  apply careful_of_rule rfl
  · intro seen (two : 2 ≤ seen.length)
    apply (fails_requireSequence (by omega) _).bind
    intro _ _
    split
    · split
      · exact fails_ite (fun _ => fails_ok) fun _ => fails_ok
      · exact fails_ok
    · exact fails_ok
  · intro ctx seen ret (two : 2 ≤ seen.length)
    simp only [element, elementBody]
    apply fails_check (by omega)
    intro nonempty
    apply (fails_wholeAt seen 1).bind
    intro i _
    apply fails_check two
    intro nonnegative
    exact fails_ok

theorem fails_sliceBounds (three : 3 ≤ args.length) (length : Nat) :
    Fails (Within args.length) (sliceBounds args length) := by
  apply (fails_wholeAt args 1).bind
  intro start _
  apply (fails_wholeAt args 2).bind
  intro stop _
  apply fails_check (by omega)
  intro startNonnegative
  apply fails_check (by omega)
  intro stopNonnegative
  apply fails_check (by omega)
  intro inside
  apply fails_check (by omega)
  intro ordered
  exact fails_ok

theorem slice_careful : Careful slice := by
  apply careful_of_rule rfl
  · intro seen (three : 3 ≤ seen.length)
    apply (fails_requireSequence (by omega) _).bind
    intro _ _
    split
    · apply fails_ite (fun _ => fails_ok)
      intro known
      apply (fails_sliceBounds three _).bind
      intro bounds _
      exact fails_ok
    · exact fails_ok
  · intro ctx seen ret three
    apply (fails_sliceBounds three _).bind
    intro bounds _
    exact fails_ok

theorem flatten_careful : Careful flatten := by
  apply careful_of_rule rfl
  · intro seen one
    apply fails_check one
    intro sequence
    exact fails_ite (fun _ => fails_ok) fun _ => fails_ok
  · intro ctx seen ret one
    exact fails_ite (fun _ => fails_ok) fun _ => fails_ok

theorem fails_requireMapping (hi : i < n) (v : Value) : Fails (Within n) (requireMapping v i) :=
  fails_ite (fun _ => fails_ok) fun _ => fails_blame _ hi

theorem keys_careful : Careful keys := by
  apply careful_of_rule rfl
  · intro seen one
    apply (fails_requireMapping one _).bind
    intro _ _
    split <;> exact fails_ok
  · exact fun _ _ _ _ => fails_ok

theorem values_careful : Careful values := by
  apply careful_of_rule rfl
  · intro seen one
    apply (fails_requireMapping one _).bind
    intro _ _
    split <;> exact fails_ok
  · exact fun _ _ _ _ => fails_ok

/-- The default is blamed only when there is one, and the argument behind it likewise. -/
theorem lookup_careful : Careful lookup := by
  apply careful_of_rule rfl
  · intro seen (two : 2 ≤ seen.length)
    simp only [lookupType]
    apply fails_ite
    · intro four
      exact fails_blame _ four
    · intro few
      apply (fails_requireMapping (by omega) _).bind
      intro _ _
      split
      · split
        · exact fails_ok
        · split
          · exact fails_ok
          · exact fails_error.2 (within_ofFault _)
      · exact fails_ok
      · exact fails_ok
  · intro ctx seen ret (two : 2 ≤ seen.length)
    apply (fails_textAt _ seen 1).bind
    intro key _
    split
    · exact fails_convertAt (by omega) _ ret
    · next default _ hd =>
      have inside : 2 < seen.length := (List.getElem?_eq_some_iff.1 hd).1
      exact fails_convertAt inside _ ret
    · exact fails_blame _ two

theorem zipmap_careful : Careful zipmap := by
  apply careful_of_rule rfl
  · intro seen (two : 2 ≤ seen.length)
    simp only [zipmapType]
    split
    · exact fails_ok
    · split
      · exact fails_ite (fun _ => fails_ok) fun _ => fails_ok
      · exact fails_ok
    · exact fails_blame _ two
  · intro ctx seen ret (two : 2 ≤ seen.length)
    simp only [zipmap, zipmapBody]
    apply fails_ite (fun _ => fails_error.2 (within_ofMessage _))
    intro even
    apply fails_ite (fun _ => fails_ok)
    intro known
    split
    · exact fails_blame _ (by omega)
    · split <;> exact fails_ok

theorem fails_convertValues (n : Nat) (e : Ty) (entries : Dict Value) :
    Fails (Within n) (convertValues e entries) := by
  apply fails_mapM
  intro x _
  apply Fails.bind
  · cases Value.convert x.2 e with
    | ok w => exact fails_ok
    | error e => exact fails_error.2 (within_ofConversion e)
  · exact fun _ _ => fails_ok

theorem merge_careful : Careful merge := by
  apply careful_of_rule rfl
  · intro seen _
    simp only [mergeType]
    split
    · next found => exact fails_found found _
    · split
      · exact fails_ok
      · split <;> exact fails_ok
  · intro ctx seen ret _
    simp only [merge, mergeBody]
    split
    · apply (fails_convertValues _ _ _).bind
      intro entries _
      exact fails_ok
    · exact fails_ok

theorem transpose_careful : Careful transpose := by
  apply careful_of_fixed rfl
  intro ctx seen ret one
  simp only [transpose, transposeBody]
  apply fails_ite (fun _ => fails_ok)
  intro known
  split
  · exact fails_blame _ one
  · exact fails_ok

theorem fails_coalesceFrom (fits : i + args.length ≤ n) (ret : Ty) :
    Fails (Within n) (coalesceFrom ret i args) := by
  induction args generalizing i with
  | nil => exact fails_error.2 (within_ofMessage _)
  | cons a rest ih =>
    rw [List.length_cons] at fits
    rw [coalesceFrom]
    apply (fails_convertAt (by omega) a ret).bind
    intro v _
    apply fails_ite (fun _ => fails_ok)
    intro known
    apply fails_ite
    · intro passed
      exact ih (by omega)
    · intro chosen
      exact fails_ok

theorem coalesce_careful : Careful coalesce := by
  apply careful_of_rule rfl
  · intro seen _
    apply fails_ite (fun _ => fails_error.2 (within_ofMessage _))
    intro nonempty
    apply fails_unifyArguments
    intro x hx
    have inside := lt_of_mem_numbered hx
    rw [List.length_map] at inside
    omega
  · intro ctx seen ret _
    exact fails_coalesceFrom (by omega) ret

theorem fails_coalescelistFrom (fits : i + args.length ≤ n) (ret : Ty) :
    Fails (Within n) (coalescelistFrom ret i args) := by
  induction args generalizing i with
  | nil => exact fails_error.2 (within_ofMessage _)
  | cons a rest ih =>
    rw [List.length_cons] at fits
    rw [coalescelistFrom]
    apply fails_ite (fun _ => fails_ok)
    intro known
    apply fails_ite
    · intro chosen
      exact fails_convertAt (by omega) a ret
    · intro passed
      exact ih (by omega)

theorem coalescelist_careful : Careful coalescelist := by
  apply careful_of_rule rfl
  · intro seen _
    simp only [coalescelistType]
    apply fails_ite (fun _ => fails_error.2 (within_ofMessage _))
    intro nonempty
    split
    · next found => exact fails_found found _
    · exact fails_ok
  · intro ctx seen ret _
    exact fails_coalescelistFrom (by omega) ret

theorem cast_careful (name : String) (target : Ty) : Careful (cast name target) := by
  apply careful_of_rule rfl
  · intro seen one
    apply fails_ite (fun _ => fails_ok)
    intro settled
    split
    · exact fails_ok
    · exact fails_blame _ one
  · intro ctx seen ret one
    simp only [cast]
    split
    · exact fails_ok
    · exact fails_blame _ one

theorem fails_setOperationType (args : List Value) :
    Fails (Within args.length) (setOperationType args) := by
  apply fails_ite (fun _ => fails_ok)
  intro typed
  apply Fails.bind
  · apply fails_unifyArguments
    intro x hx
    obtain ⟨⟨j, v⟩, hy, hxy⟩ := List.mem_filterMap.1 hx
    have inside := lt_of_mem_numbered hy
    dsimp only at hxy
    split at hxy
    · cases hxy
    · cases hxy
      omega
  · exact fun _ _ => fails_ok

theorem fails_combineFrom (fits : i + args.length ≤ n) (ret : Ty) (op : SetOperation)
    (bearsUnknown : Bool) (acc : Option (List Value)) :
    Fails (Within n) (combineFrom ret op bearsUnknown i acc args) := by
  induction args generalizing i acc with
  | nil => exact fails_ok
  | cons a rest ih =>
    rw [List.length_cons] at fits
    rw [combineFrom]
    apply (fails_convertAt (by omega) a ret).bind
    intro v _
    apply fails_ite (fun _ => fails_ok)
    intro known
    exact ih (by omega) _

theorem fails_setBody (op : SetOperation) (bearsUnknown : Bool) (ctx : Context)
    (args : List Value) (ret : Ty) :
    Fails (Within args.length) (setBody op bearsUnknown ctx args ret) := by
  apply (fails_combineFrom (by omega) ret op bearsUnknown none).bind
  intro combined _
  cases combined <;> exact fails_ok

theorem setFunction_careful (name : String) (op : SetOperation) (bearsUnknown : Bool) :
    Careful (setFunction name op bearsUnknown) :=
  careful_of_rule rfl (fun seen _ => fails_setOperationType seen) fun ctx seen ret _ =>
    fails_setBody op bearsUnknown ctx seen ret

theorem setsubtract_careful : Careful setsubtract :=
  careful_of_rule rfl (fun seen _ => fails_setOperationType seen) fun ctx seen ret _ =>
    fails_setBody Value.subtract false ctx seen ret

theorem contains_careful : Careful contains := by
  apply careful_of_fixed rfl
  intro ctx seen ret (two : 2 ≤ seen.length)
  apply fails_check (by omega)
  intro sequence
  exact fails_ok

theorem index_careful : Careful index := by
  apply careful_of_fixed rfl
  intro ctx seen ret (two : 2 ≤ seen.length)
  simp only [index, indexBody]
  apply fails_check (by omega)
  intro sequence
  apply fails_check (by omega)
  intro nonempty
  split
  · exact fails_ok
  · exact fails_ok
  · exact fails_error.2 (within_ofMessage _)

theorem boolList_careful (name : String) (stop nullCounts : Bool) :
    Careful (boolList name stop nullCounts) :=
  careful_of_fixed rfl fun _ _ _ _ => fails_ok

theorem length_careful : Careful length := by
  apply careful_of_rule rfl
  · intro seen one
    simp only [lengthType]
    split
    · exact fails_blame _ one
    · exact fails_blame _ one
    · exact fails_ok
  · intro ctx seen ret _
    simp only [length]
    split <;> exact fails_ok

theorem fails_keysAndSearchsetType (three : 3 ≤ args.length) :
    Fails (Within args.length) (keysAndSearchsetType args) := by
  apply fails_unifyArguments
  intro x hx
  simp only [List.mem_cons, List.not_mem_nil, or_false] at hx
  rcases hx with rfl | rfl
  · exact Nat.lt_of_lt_of_le (by decide : 1 < 3) three
  · exact three

theorem matchkeys_careful : Careful matchkeys := by
  apply careful_of_rule rfl
  · intro seen three
    apply (fails_keysAndSearchsetType three).bind
    intro common _
    exact fails_ok
  · intro ctx seen ret (three : 3 ≤ seen.length)
    simp only [matchkeys, matchkeysBody]
    apply fails_ite (fun _ => fails_error.2 (within_ofMessage _))
    intro even
    apply (fails_keysAndSearchsetType three).bind
    intro common _
    apply (fails_convertAt (by omega) _ common).bind
    intro keys _
    apply (fails_convertAt three _ common).bind
    intro searchset _
    apply fails_ite (fun _ => fails_ok)
    intro nonempty
    apply fails_ite (fun _ => fails_ok)
    intro known
    split <;> exact fails_ok

end MarkedValues.Standard
