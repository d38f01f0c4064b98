import Mathlib.Data.List.Count
import Mathlib.Data.List.Induction
import MarkedValues.Proofs.Call.Preparation
import MarkedValues.Proofs.Call.Table
import MarkedValues.Proofs.Ty.Unification
import MarkedValues.Proofs.Value.Stability
import MarkedValues.Proofs.Value.Unmarked

/-!
Maps of lists of strings, turned around. The pairs of a string and the key whose list holds it
are put into a second map one by one; `Grouped` says what this map is after any number of
them. Turning around keeps how often a key and a string are paired, and rows in order are
determined by these numbers.
-/
namespace MarkedValues

variable {engine : Regex.Engine}

namespace Value

def strings (v : Value) : List String := v.elements.filterMap string?

/-- The strings in each list of a map, under the key of the list. -/
def rows (v : Value) : Dict (List String) := Dict.mapValues strings v.entries

def ofRows (rows : Dict (List String)) : Value :=
  map (.list .string) (Dict.mapValues stringList rows)

@[simp] theorem strings_stringList (ss : List String) : (stringList ss).strings = ss := by
  simp [strings, stringList, list, elements, elements?, string, string?, List.filterMap_map,
    Function.comp_def]

theorem unmarked_ofRows (rows : Dict (List String)) : (ofRows rows).Unmarked :=
  unmarked_map (List.forall_mem_map.2 fun row _ => unmarked_stringList row.2)

theorem wellFormed_ofRows (rows : Dict (List String)) : (ofRows rows).WellFormed :=
  wellFormed_map trivial (List.forall_mem_map.2 fun _ _ => Ty.Matches.refl _)
    (List.forall_mem_map.2 fun row _ => wellFormed_stringList row.2)

theorem ofRows_of_sorted {rows : Dict (List String)} (sorted : rows.Sorted) :
    ofRows rows = .mapping (.map (.list .string)) (Dict.mapValues stringList rows) ∅ := by
  have keys : (Dict.mapValues stringList rows).Sorted :=
    sorted.of_keys_eq (Dict.keys_mapValues _ _)
  rw [ofRows, map, Dict.ofList_of_sorted keys]

theorem rows_ofRows {rows : Dict (List String)} (sorted : rows.Sorted) :
    (ofRows rows).rows = rows := by
  rw [ofRows_of_sorted sorted]
  change Dict.mapValues strings (Dict.mapValues stringList rows) = rows
  simp [Dict.mapValues, Function.comp_def]

theorem eq_ofRows {es : Dict Value} (sorted : es.Sorted)
    (lists : ∀ e ∈ es, e.2 = stringList e.2.strings) :
    .mapping (.map (.list .string)) es ∅ = ofRows (Dict.mapValues strings es) := by
  have same : es = Dict.mapValues stringList (Dict.mapValues strings es) := by
    rw [Dict.mapValues, Dict.mapValues, List.map_map]
    have kept : ∀ e ∈ es, e = (e.1, stringList e.2.strings) := fun e he =>
      Prod.ext rfl (lists e he)
    exact (List.map_id es).symm.trans (List.map_congr_left kept)
  rw [ofRows_of_sorted (sorted.of_keys_eq (Dict.keys_mapValues _ es)), ← same]

theorem eq_string {v : Value} (unmarked : v.Unmarked) {s : String} (text : v.string? = some s) :
    v = string s := by
  cases v with
  | scalar c m =>
    cases c with
    | string s =>
      cases text
      rw [unmarked_scalar.1 unmarked, string]
    | _ => cases text
  | _ => cases text

theorem map_string_filterMap {es : List Value} (texts : ∀ w ∈ es, ∃ s, w = string s) :
    (es.filterMap string?).map string = es := by
  induction es with
  | nil => rfl
  | cons w es ih =>
    obtain ⟨⟨s, rfl⟩, rest⟩ := List.forall_mem_cons.1 texts
    exact congrArg _ (ih rest)

theorem eq_stringList {v : Value} (type : v.ty = .list .string) (unmarked : v.Unmarked)
    {es : List Value} (content : v.elements? = some es)
    (texts : ∀ w ∈ es, ∃ s, w.string? = some s) : v = stringList v.strings := by
  cases v with
  | sequence k es' m =>
    cases content
    obtain ⟨rfl, parts⟩ := unmarked_sequence.1 unmarked
    have strings : ∀ w ∈ es, ∃ s, w = string s := by
      intro w hw
      obtain ⟨s, text⟩ := texts w hw
      exact ⟨s, eq_string (parts w hw) text⟩
    cases k with
    | list e =>
      cases type
      change list .string es = list .string ((es.filterMap string?).map string)
      rw [map_string_filterMap strings]
    | _ => cases type
  | _ => cases content

end Value

namespace Standard

theorem perm_insertString (s : String) (ts : List String) : (insertString s ts).Perm (s :: ts) := by
  induction ts with
  | nil => exact .refl _
  | cons t ts ih =>
    rw [insertString]
    split
    · exact .refl _
    · exact (ih.cons t).trans (.swap s t ts)

theorem pairwise_insertString (s : String) {ts : List String} (sorted : ts.Pairwise (· ≤ ·)) :
    (insertString s ts).Pairwise (· ≤ ·) := by
  induction ts with
  | nil => exact List.pairwise_singleton _ s
  | cons t ts ih =>
    have tail := List.pairwise_cons.1 sorted
    rw [insertString]
    split
    · next first =>
      refine List.pairwise_cons.2 ⟨List.forall_mem_cons.2 ⟨first, fun x hx => ?_⟩, sorted⟩
      exact String.le_trans first (tail.1 x hx)
    · next later =>
      refine List.pairwise_cons.2 ⟨fun x hx => ?_, ih tail.2⟩
      rcases List.mem_cons.1 ((perm_insertString s ts).mem_iff.1 hx) with rfl | hx
      · exact Std.le_of_lt (String.not_le.1 later)
      · exact tail.1 x hx

theorem perm_sortStrings (ss : List String) : (sortStrings ss).Perm ss := by
  induction ss with
  | nil => exact .refl _
  | cons s ss ih => exact (perm_insertString s _).trans (ih.cons s)

theorem pairwise_sortStrings (ss : List String) : (sortStrings ss).Pairwise (· ≤ ·) := by
  induction ss with
  | nil => exact .nil
  | cons s ss ih => exact pairwise_insertString s ih

theorem pairwise_mergeSort (ss : List String) : ss.mergeSort.Pairwise (· ≤ ·) := by
  have sorted : ss.mergeSort.Pairwise fun s t => decide (s ≤ t) = true := by
    apply List.pairwise_mergeSort
    · intro s t u first later
      rw [decide_eq_true_eq] at first later ⊢
      exact String.le_trans first later
    · intro s t
      simpa using String.le_total s t
  exact sorted.imp of_decide_eq_true

def rowAt (rows : Dict (List String)) (k : String) : List String := (rows.lookup k).getD []

/-- Each string in the rows, with the key of its row. -/
def pairs (rows : Dict (List String)) : List (String × String) :=
  rows.flatMap fun row => row.2.map fun s => (s, row.1)

/-- Keys ascend, and under each of them there are strings, in order. -/
structure InOrder (rows : Dict (List String)) : Prop where
  sorted : rows.Sorted
  filled : ∀ row ∈ rows, row.2 ≠ []
  ordered : ∀ row ∈ rows, row.2.Pairwise (· ≤ ·)

/-- The rows with strings in them, these in order. -/
def tidied (rows : Dict (List String)) : Dict (List String) :=
  Dict.mapValues (fun ss => ss.mergeSort) (rows.filter (·.2 ≠ []))

/-- The rows with keys and strings exchanged. -/
def turned (rows : Dict (List String)) : Dict (List String) :=
  Dict.mapValues sortStrings (pivotOf (pairs rows))

section

variable {rows : Dict (List String)}

/-- A string stands under a key as often as the two are paired. -/
theorem count_pairs (sorted : rows.Sorted) (x k : String) :
    (pairs rows).count (x, k) = (rowAt rows k).count x := by
  induction rows with
  | nil => rfl
  | cons row rest ih =>
    obtain ⟨l, ss⟩ := row
    have split : pairs ((l, ss) :: rest) = ss.map (fun s => (s, l)) ++ pairs rest := rfl
    rw [split, List.count_append, ih sorted.tail]
    by_cases same : k = l
    · subst same
      have injective : Function.Injective fun s : String => (s, k) := fun _ _ h => congrArg Prod.fst h
      rw [List.count_map_of_injective _ _ injective, rowAt, rowAt, sorted.lookup_tail,
        Dict.lookup_cons_self]
      rfl
    · have none : (ss.map fun s => (s, l)).count (x, k) = 0 := by
        rw [List.count_eq_zero]
        intro mem
        obtain ⟨_, _, eq⟩ := List.mem_map.1 mem
        exact same (congrArg Prod.snd eq).symm
      rw [none, Nat.zero_add, rowAt, rowAt, Dict.lookup_cons_of_ne same]

theorem InOrder.pairwise_rowAt (h : InOrder rows) (k : String) :
    (rowAt rows k).Pairwise (· ≤ ·) := by
  rw [rowAt]
  cases found : rows.lookup k with
  | none => exact .nil
  | some ss => exact h.ordered _ (Dict.mem_of_lookup found)

/-- No row is empty, so the strings under a key tell whether there is a row. -/
theorem InOrder.lookup_eq (h : InOrder rows) (k : String) :
    rows.lookup k = if rowAt rows k = [] then none else some (rowAt rows k) := by
  rw [rowAt]
  cases found : rows.lookup k with
  | none => rfl
  | some ss => exact (if_neg (h.filled _ (Dict.mem_of_lookup found))).symm

/-- Rows in order are the same when each string stands under each key as often in
    the one as in the other. -/
theorem InOrder.ext {rows' : Dict (List String)} (h : InOrder rows) (h' : InOrder rows')
    (same : ∀ x k, (rowAt rows k).count x = (rowAt rows' k).count x) : rows = rows' := by
  refine Dict.ext_lookup h.sorted h'.sorted fun k => ?_
  have row : rowAt rows k = rowAt rows' k :=
    List.Perm.eq_of_pairwise (fun _ _ _ _ => String.le_antisymm) (h.pairwise_rowAt k)
      (h'.pairwise_rowAt k) (List.perm_iff_count.2 fun x => same x k)
  rw [h.lookup_eq, h'.lookup_eq, row]

theorem perm_pairs_tidied (rows : Dict (List String)) : (pairs (tidied rows)).Perm (pairs rows) := by
  induction rows with
  | nil => rfl
  | cons row rest ih =>
    obtain ⟨l, ss⟩ := row
    cases ss with
    | nil => exact ih
    | cons s ss =>
      have here := (List.mergeSort_perm (s :: ss) (· ≤ ·)).map fun x => (x, l)
      exact here.append ih

theorem inOrder_mapValues {f : List String → List String} (perm : ∀ ss, (f ss).Perm ss)
    (ordered : ∀ ss, (f ss).Pairwise (· ≤ ·)) (sorted : rows.Sorted)
    (filled : ∀ row ∈ rows, row.2 ≠ []) : InOrder (rows.mapValues f) := by
  refine ⟨sorted.of_keys_eq (Dict.keys_mapValues f rows), ?_, ?_⟩
  · refine List.forall_mem_map.2 fun row mem empty => filled row mem ?_
    exact List.nil_perm.1 (empty ▸ perm row.2)
  · exact List.forall_mem_map.2 fun row _ => ordered row.2

theorem inOrder_tidied (sorted : rows.Sorted) : InOrder (tidied rows) := by
  refine inOrder_mapValues (fun ss => List.mergeSort_perm ss _) pairwise_mergeSort ?_ ?_
  · exact List.Pairwise.sublist (List.filter_sublist.map _) sorted
  · intro row mem
    simpa using (List.mem_filter.1 mem).2

theorem count_tidied (sorted : rows.Sorted) (x k : String) :
    (rowAt (tidied rows) k).count x = (rowAt rows k).count x := by
  rw [← count_pairs (inOrder_tidied sorted).sorted, (perm_pairs_tidied rows).count_eq,
    count_pairs sorted]

theorem tidied_of_inOrder (h : InOrder rows) : tidied rows = rows :=
  (inOrder_tidied h.sorted).ext h (count_tidied h.sorted)

end

/-- What the pivot is after some pairs: keys ascend, no list is empty, and under each key are its
    partners in the order in which they came. -/
structure Grouped (ps : List (String × String)) (pivot : Dict (List String)) : Prop where
  sorted : pivot.Sorted
  filled : ∀ row ∈ pivot, row.2 ≠ []
  partners : ∀ x, rowAt pivot x = (ps.filter (·.1 = x)).map Prod.snd

theorem Grouped.add {ps : List (String × String)} {pivot : Dict (List String)}
    (h : Grouped ps pivot) (pair : String × String) :
    Grouped (ps ++ [pair]) (Pivot.add pivot pair) := by
  refine ⟨h.sorted.insert _ _, ?_, ?_⟩
  · intro row hrow
    rcases Dict.mem_insert hrow with rfl | hrow
    · simp
    · exact h.filled row hrow
  · intro x
    rw [List.filter_append, List.map_append, ← h.partners, Pivot.add, rowAt, Dict.lookup_insert]
    by_cases same : x = pair.1
    · subst same
      simp [rowAt]
    · simp [rowAt, same, Ne.symm same]

theorem grouped_pivotOf (ps : List (String × String)) : Grouped ps (pivotOf ps) := by
  induction ps using List.reverseRecOn with
  | nil => exact ⟨.nil, nofun, fun _ => rfl⟩
  | append_singleton ps pair ih =>
    rw [pivotOf, List.foldl_append]
    exact ih.add pair

theorem rowAt_turned (rows : Dict (List String)) (x : String) :
    rowAt (turned rows) x = sortStrings (rowAt (pivotOf (pairs rows)) x) := by
  rw [rowAt, rowAt, turned, Dict.lookup_mapValues]
  cases (pivotOf (pairs rows)).lookup x <;> rfl

theorem inOrder_turned (rows : Dict (List String)) : InOrder (turned rows) := by
  have grouped := grouped_pivotOf (pairs rows)
  exact inOrder_mapValues perm_sortStrings pairwise_sortStrings grouped.sorted grouped.filled

theorem count_partners (ps : List (String × String)) (x k : String) :
    ((ps.filter (·.1 = x)).map Prod.snd).count k = ps.count (x, k) := by
  rw [List.count, List.countP_map, List.countP_filter, List.count]
  refine List.countP_congr fun pair _ => ?_
  simp [Prod.ext_iff, and_comm]

/-- A key is paired with a string as often as the string with the key. -/
theorem count_turned {rows : Dict (List String)} (sorted : rows.Sorted) (k x : String) :
    (rowAt (turned rows) x).count k = (rowAt rows k).count x := by
  rw [rowAt_turned, (perm_sortStrings _).count_eq, (grouped_pivotOf _).partners,
    count_partners, count_pairs sorted]

theorem turned_turned {rows : Dict (List String)} (sorted : rows.Sorted) :
    turned (turned rows) = tidied rows := by
  refine (inOrder_turned _).ext (inOrder_tidied sorted) fun x k => ?_
  rw [count_turned (inOrder_turned rows).sorted, count_turned sorted, count_tidied sorted]

theorem call_transpose (ctx : Context) {m : Value} (type : m.ty = .map (.list .string))
    (unmarked : m.Unmarked) :
    (table engine).call ctx "transpose" [m] =
      if m.isNull then .error ((CallError.mustNotBeNull.atArgument 0).atParameter "values")
      else if m.isUnknown then .ok (transpose.unknownResult (.map (.list .string)))
      else transpose.finish (.map (.list .string)) ∅
        (transposeBody ctx [m] (.map (.list .string))) := by
  have erased : m.erase = m := Value.erase_eq_self unmarked
  have marks : m.allMarks = ∅ := unmarked
  rw [standardTable_call transpose rfl,
    Function.call_single (p := { name := "values", ty := .map (.list .string) }) rfl rfl,
    Param.receive_eq, Param.strip, Param.taken]
  have same : Value.convert m (.map (.list .string)) = .ok m := Value.convert_of_same (.inr type)
  simp only [erased, marks, same, type, Ty.isDynamic, Bool.not_false, Bool.and_true,
    Bool.false_eq_true, if_false]
  cases m.isNull with
  | true => rfl
  | false => cases m.isUnknown <;> rfl

theorem pairsOf_rows (rows : Dict (List String)) :
    pairsOf (Dict.mapValues .stringList rows) = some (pairs rows) := by
  have row (k : String) (ss : List String) :
      allSome ((ss.map Value.string).map fun v => v.string?.map fun s => (s, k)) =
        some (ss.map fun s => (s, k)) := by
    rw [← Ty.allSome_map_some, List.map_map]
    rfl
  calc pairsOf (Dict.mapValues .stringList rows)
      = (allSome (rows.map fun e => some (e.2.map fun s => (s, e.1)))).map List.flatten := by
        rw [pairsOf, Dict.mapValues, List.map_map]
        exact congrArg (fun lists => (allSome lists).map List.flatten)
          (List.map_congr_left fun e _ => row e.1 e.2)
    _ = some (pairs rows) := by
        rw [Ty.allSome_map_some, Option.map_some, pairs, List.flatMap_def]

theorem call_transpose_ofRows (ctx : Context) {rows : Dict (List String)} (sorted : rows.Sorted) :
    (table engine).call ctx "transpose" [.ofRows rows] = .ok (.ofRows (turned rows)) := by
  have whole : (Value.ofRows rows).isWhollyKnown = true := by
    rw [Value.ofRows_of_sorted sorted, Value.isWhollyKnown]
    simp [Dict.mapValues, Value.stringList, Value.list, Value.string, Value.isWhollyKnown]
  have entries : (Value.ofRows rows).entries = Dict.mapValues .stringList rows := by
    rw [Value.ofRows_of_sorted sorted]
    rfl
  have body : transposeBody ctx [.ofRows rows] (.map (.list .string)) =
      .ok (.ofRows (turned rows)) := by
    have first : argument [.ofRows rows] 0 = .ofRows rows := rfl
    simp only [transposeBody, first, whole, entries, pairsOf_rows, Bool.not_true, if_false,
      Bool.false_eq_true]
    simp only [Value.ofRows, turned, Dict.mapValues, List.map_map, Function.comp_def]
  have conforms : transpose.conform (.ofRows (turned rows)) (.map (.list .string)) =
      .ok (.ofRows (turned rows)) := Function.conform_of_ty rfl rfl rfl
  have present : (Value.ofRows rows).isNull = false := rfl
  have known : (Value.ofRows rows).isUnknown = false := rfl
  rw [call_transpose ctx rfl (Value.unmarked_ofRows rows), present, known, body,
    if_neg Bool.false_ne_true, if_neg Bool.false_ne_true]
  exact Function.finish_of_conform conforms

theorem lists_of_pairsOf {entries : Dict Value} {ps : List (String × String)}
    (h : pairsOf entries = some ps) : ∀ e ∈ entries, ∃ es, e.2.elements? = some es ∧
      ∀ w ∈ es, ∃ s, w.string? = some s := by
  obtain ⟨_, lists, _⟩ := Option.map_eq_some_iff.1 h
  intro e he
  obtain ⟨_, _, pairs⟩ := Lists.exists_of_mem_right (Ty.forall₂_of_allSome lists).flip he
  obtain ⟨es, content, texts⟩ := Option.bind_eq_some_iff.1 pairs
  refine ⟨es, content, fun w hw => ?_⟩
  obtain ⟨_, _, text⟩ := Lists.exists_of_mem_right (Ty.forall₂_of_allSome texts).flip hw
  obtain ⟨s, text, _⟩ := Option.map_eq_some_iff.1 text
  exact ⟨s, text⟩

theorem rows_of_call_transpose {ctx : Context} {m r : Value} (built : m.WellFormed)
    (type : m.ty = .map (.list .string)) (unmarked : m.Unmarked)
    (call : (table engine).call ctx "transpose" [m] = .ok r) (known : r.isKnown = true) :
    m = .ofRows m.rows ∧ m.rows.Sorted := by
  rw [call_transpose ctx type unmarked] at call
  cases m with
  | null t s => cases call
  | unknown t n s =>
    cases call
    cases known
  | scalar c s => cases c <;> cases type
  | sequence k es s => cases k <;> cases type
  | mapping k es s =>
    simp only [Value.isNull, Value.isUnknown, transposeBody, Bool.false_eq_true, if_false] at call
    split at call
    · cases call
      cases known
    · split at call
      · cases call
      · next ps lists =>
        cases built with
        | object => cases type
        | map _ sorted typed parts =>
          obtain ⟨rfl, clean⟩ := Value.unmarked_mapping.1 unmarked
          cases type
          refine ⟨Value.eq_ofRows sorted fun e he => ?_,
            sorted.of_keys_eq (Dict.keys_mapValues _ es)⟩
          obtain ⟨vs, content, texts⟩ := lists_of_pairsOf lists e he
          exact Value.eq_stringList ((typed e he).eq_of_closed rfl) (clean e he) content texts

/-- Transposing exchanges keys and strings, each pair as often as it was there, and gives
    rows in order. Done twice it leaves the rows with strings in them, in order; rows in
    order are given back. -/
theorem transpose_exchanges (ctx : Context) {m : Value} (built : m.WellFormed)
    (type : m.ty = .map (.list .string)) (unmarked : m.Unmarked) :
    (∀ r, (table engine).call ctx "transpose" [m] = .ok r → r.isKnown = true →
      (m = .ofRows m.rows ∧ r = .ofRows r.rows) ∧
      (∀ k x, (rowAt r.rows x).count k = (rowAt m.rows k).count x) ∧
      InOrder r.rows ∧
      (table engine).call ctx "transpose" [r] = .ok (.ofRows (tidied m.rows))) ∧
    (m = .ofRows m.rows → InOrder m.rows →
      ∃ r, r.isKnown = true ∧ (table engine).call ctx "transpose" [m] = .ok r ∧
        (table engine).call ctx "transpose" [r] = .ok m) := by
  constructor
  · intro r call known
    obtain ⟨rows, sorted⟩ := rows_of_call_transpose built type unmarked call known
    rw [rows, call_transpose_ofRows ctx sorted] at call
    cases call
    have turnedRows := Value.rows_ofRows (inOrder_turned m.rows).sorted
    refine ⟨⟨rows, by rw [turnedRows]⟩, ?_, ?_, ?_⟩
    · rw [turnedRows]
      exact count_turned sorted
    · rw [turnedRows]
      exact inOrder_turned m.rows
    · rw [call_transpose_ofRows ctx (inOrder_turned m.rows).sorted, turned_turned sorted]
  · intro rows inOrder
    refine ⟨.ofRows (turned m.rows), rfl, ?_, ?_⟩
    · conv_lhs => rw [rows]
      exact call_transpose_ofRows ctx inOrder.sorted
    · rw [call_transpose_ofRows ctx (inOrder_turned m.rows).sorted, turned_turned inOrder.sorted,
        tidied_of_inOrder inOrder, ← rows]

def coloursByName : Dict (List String) :=
  [("ann", ["red", "blue", "red"]), ("bob", []), ("eve", ["blue"])]

def namesByColour : Dict (List String) := [("blue", ["ann", "eve"]), ("red", ["ann", "ann"])]

/-- A name stands twice under the colour that it has twice. The name without colours is not there
    after exchanging twice, and what is in order by then stays as it is. -/
theorem coloursByName_exchanged :
    (Value.ofRows coloursByName).WellFormed ∧ (Value.ofRows coloursByName).Unmarked ∧
      standardTable.call {} "transpose" [.ofRows coloursByName] = .ok (.ofRows namesByColour) ∧
      (rowAt (Value.ofRows namesByColour).rows "red").count "ann" =
        (rowAt (Value.ofRows coloursByName).rows "ann").count "red" ∧
      InOrder (Value.ofRows namesByColour).rows ∧
      standardTable.call {} "transpose" [.ofRows namesByColour] =
        .ok (.ofRows [("ann", ["blue", "red", "red"]), ("eve", ["blue"])]) ∧
      ∃ r, standardTable.call {} "transpose" [.ofRows namesByColour] = .ok r ∧
        standardTable.call {} "transpose" [r] = .ok (.ofRows namesByColour) := by
  have sorted : coloursByName.Sorted := by
    rw [Dict.Sorted]
    decide
  have names : turned coloursByName = namesByColour := by decide +kernel
  have colours : turned namesByColour = [("ann", ["blue", "red", "red"]), ("eve", ["blue"])] := by
    decide +kernel
  have call : standardTable.call {} "transpose" [.ofRows coloursByName] =
      .ok (.ofRows namesByColour) := by
    rw [call_transpose_ofRows _ sorted, names]
  have built := Value.wellFormed_ofRows
  have unmarked := Value.unmarked_ofRows
  obtain ⟨exchanged, _⟩ := transpose_exchanges {} (built coloursByName) rfl (unmarked coloursByName)
  obtain ⟨⟨_, rows⟩, counts, inOrder, again⟩ := exchanged _ call rfl
  rw [Value.rows_ofRows sorted, ← turned_turned sorted, names, colours] at again
  obtain ⟨_, back⟩ := transpose_exchanges {} (built namesByColour) rfl (unmarked namesByColour)
  obtain ⟨r, _, there, back⟩ := back rows inOrder
  exact ⟨built _, unmarked _, call, counts "ann" "red", inOrder, again, r, there, back⟩

end Standard

end MarkedValues
