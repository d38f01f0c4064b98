import MarkedValues.Proofs.Value.Erasure

/-!
Which values are free of marks: those made anew, and those put together from such values.
-/
namespace MarkedValues.Value

@[simp] theorem unmarked_string (s : String) : (string s).Unmarked := rfl

@[simp] theorem unmarked_number (n : Number) : (number n).Unmarked := rfl

@[simp] theorem unmarked_int (n : Int) : (int n).Unmarked := rfl

@[simp] theorem unmarked_bool (b : Bool) : (bool b).Unmarked := rfl

@[simp] theorem unmarked_nullOf (t : Ty) : (nullOf t).Unmarked := rfl

@[simp] theorem unmarked_unknownOf (t : Ty) : (unknownOf t).Unmarked := rfl

@[simp] theorem unmarked_list {e : Ty} {es : List Value} :
    (list e es).Unmarked ↔ ∀ v ∈ es, v.Unmarked := by
  simp [list]

@[simp] theorem unmarked_tuple {es : List Value} : (tuple es).Unmarked ↔ ∀ v ∈ es, v.Unmarked := by
  simp [tuple]

@[simp] theorem unmarked_stringList (ss : List String) : (stringList ss).Unmarked := by
  simp [stringList]

theorem unmarked_set {e : Ty} {es : List Value} (h : ∀ v ∈ es, v.Unmarked) :
    (set e es).Unmarked := by
  rw [set, marksOfAll_eq_empty.2 h, unmarked_sequence]
  refine ⟨rfl, fun w hw => ?_⟩
  obtain ⟨v, _, rfl⟩ := List.mem_map.1 (mem_normalize hw)
  exact unmarked_erase v

theorem unmarked_map {e : Ty} {es : List (String × Value)} (h : ∀ x ∈ es, x.2.Unmarked) :
    (map e es).Unmarked :=
  unmarked_mapping.2 ⟨rfl, fun x hx => h x (Dict.mem_ofList hx)⟩

theorem unmarked_object {es : List (String × Value)} (h : ∀ x ∈ es, x.2.Unmarked) :
    (object es).Unmarked :=
  unmarked_mapping.2 ⟨rfl, fun x hx => h x (Dict.mem_ofList hx)⟩

theorem Unmarked.elements {v : Value} (h : v.Unmarked) : ∀ w ∈ v.elements, w.Unmarked := by
  cases v with
  | sequence k es m => exact (unmarked_sequence.1 h).2
  | _ => simp [Value.elements, elements?]

theorem Unmarked.entries {v : Value} (h : v.Unmarked) : ∀ x ∈ v.entries, x.2.Unmarked := by
  cases v with
  | mapping k es m => exact (unmarked_mapping.1 h).2
  | _ => simp [Value.entries, entries?]

end MarkedValues.Value
