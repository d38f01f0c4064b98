import MarkedValues.Ty.Order

/-!
The common type of several types: one that every given type can be converted to. Primitives meet in
`string`, sequences in a list or set unless they are tuples of one length, mappings in a map unless
they are objects of the same names, and anything meets `dynamic` in `dynamic`.
-/
namespace MarkedValues

/-- All the values, when every one is there. -/
def allSome {α : Type} : List (Option α) → Option (List α)
  | [] => some []
  | none :: _ => none
  | some a :: rest => (allSome rest).map (a :: ·)

namespace Ty

def tupleElems : Ty → List Ty
  | .tuple es => es
  | _ => []

def objectAttrs : Ty → List (String × Ty)
  | .object attrs => attrs
  | _ => []

def sequenceElems : Ty → List Ty
  | .list e | .set e => [e]
  | .tuple es => es
  | _ => []

def mappingElems : Ty → List Ty
  | .map e => [e]
  | .object attrs => Dict.values attrs
  | _ => []

def sameLength (ts : List Ty) : Bool :=
  ts.all fun t => t.isTuple && t.tupleElems.length == (ts.headD .dynamic).tupleElems.length

def sameNames (ts : List Ty) : Bool :=
  ts.all fun t => t.isObject &&
    Dict.keys t.objectAttrs == Dict.keys (ts.headD .dynamic).objectAttrs

def column (ts : List Ty) (i : Nat) : List Ty := ts.filterMap (·.tupleElems[i]?)

def attrColumn (ts : List Ty) (k : String) : List Ty := ts.filterMap (·.objectAttrs.lookup k)

theorem depth_tupleElems {t e : Ty} (h : e ∈ t.tupleElems) : e.depth < t.depth := by
  cases t <;> simp only [tupleElems, List.not_mem_nil] at h
  exact Nat.lt_succ_of_le (depth_le_depthAll h)

theorem depth_objectAttrs {k : String} {t e : Ty} (h : t.objectAttrs.lookup k = some e) :
    e.depth < t.depth := by
  cases t <;> simp only [objectAttrs, List.lookup_nil, reduceCtorEq] at h
  exact Nat.lt_succ_of_le (depth_le_depthAttrs (Dict.mem_of_lookup h))

theorem depth_sequenceElems {t e : Ty} (h : e ∈ t.sequenceElems) : e.depth < t.depth := by
  cases t <;> simp only [sequenceElems, List.not_mem_nil, List.mem_singleton] at h
  · subst h; exact Nat.lt_succ_self _
  · subst h; exact Nat.lt_succ_self _
  · exact Nat.lt_succ_of_le (depth_le_depthAll h)

theorem depth_mappingElems {t e : Ty} (h : e ∈ t.mappingElems) : e.depth < t.depth := by
  cases t <;> simp only [mappingElems, List.not_mem_nil, List.mem_singleton] at h
  · subst h; exact Nat.lt_succ_self _
  · obtain ⟨⟨k, u⟩, hmem, rfl⟩ := List.mem_map.1 h
    exact Nat.lt_succ_of_le (depth_le_depthAttrs hmem)

def allSequenceElems (ts : List Ty) : List Ty := ts.flatMap sequenceElems

def allMappingElems (ts : List Ty) : List Ty := ts.flatMap mappingElems

/-- Types that are each less deep than one of `ts` are together less deep than `ts`. -/
theorem depthAll_lt {us ts : List Ty} (hts : ts ≠ []) (h : ∀ u ∈ us, ∃ t ∈ ts, u.depth < t.depth) :
    depthAll us < depthAll ts := by
  obtain ⟨t, rest, rfl⟩ := List.exists_cons_of_ne_nil hts
  have hpos : 0 < depthAll (t :: rest) :=
    Nat.lt_of_lt_of_le t.depth_pos (depth_le_depthAll (List.mem_cons_self))
  have : depthAll us ≤ depthAll (t :: rest) - 1 := depthAll_le fun u hu => by
    obtain ⟨s, hs, hlt⟩ := h u hu
    have := depth_le_depthAll hs
    omega
  omega

theorem depthAll_column_lt {ts : List Ty} (hts : ts ≠ []) (i : Nat) :
    depthAll (column ts i) < depthAll ts :=
  depthAll_lt hts fun _ hu => by
    obtain ⟨t, ht, hget⟩ := List.mem_filterMap.1 hu
    exact ⟨t, ht, depth_tupleElems (List.mem_of_getElem? hget)⟩

theorem depthAll_attrColumn_lt {ts : List Ty} (hts : ts ≠ []) (k : String) :
    depthAll (attrColumn ts k) < depthAll ts :=
  depthAll_lt hts fun _ hu => by
    obtain ⟨t, ht, hget⟩ := List.mem_filterMap.1 hu
    exact ⟨t, ht, depth_objectAttrs hget⟩

theorem depthAll_allSequenceElems_lt {ts : List Ty} (hts : ts ≠ []) :
    depthAll (allSequenceElems ts) < depthAll ts :=
  depthAll_lt hts fun _ hu => by
    obtain ⟨t, ht, hmem⟩ := List.mem_flatMap.1 hu
    exact ⟨t, ht, depth_sequenceElems hmem⟩

theorem depthAll_allMappingElems_lt {ts : List Ty} (hts : ts ≠ []) :
    depthAll (allMappingElems ts) < depthAll ts :=
  depthAll_lt hts fun _ hu => by
    obtain ⟨t, ht, hmem⟩ := List.mem_flatMap.1 hu
    exact ⟨t, ht, depth_mappingElems hmem⟩

/-- The common type of a non-empty list of types, if there is one. -/
def unify (ts : List Ty) : Option Ty :=
  if _ : ts = [] then none
  else
    let first := ts.headD .dynamic
    if ts.any isDynamic then some .dynamic
    else if ts.all (· == first) then some first
    else if ts.all isPrimitive then some .string
    else if ts.all isSequence then
      if sameLength ts then
        (allSome ((List.range first.tupleElems.length).map fun i => unify (column ts i))).map .tuple
      else
        let elems := allSequenceElems ts
        (if elems.isEmpty then some .dynamic else unify elems).map
          (if ts.any isSet && !ts.any isList then .set else .list)
    else if ts.all isMapping then
      if sameNames ts then
        let names := Dict.keys first.objectAttrs
        (allSome (names.map fun k => unify (attrColumn ts k))).map (.object <| names.zip ·)
      else
        let elems := allMappingElems ts
        (if elems.isEmpty then some .dynamic else unify elems).map .map
    else none
termination_by depthAll ts
decreasing_by
  · exact depthAll_column_lt ‹_› _
  · exact depthAll_allSequenceElems_lt ‹_›
  · exact depthAll_attrColumn_lt ‹_› _
  · exact depthAll_allMappingElems_lt ‹_›

/-- The common type, `dynamic` for no types at all. -/
def unifyOrDynamic (ts : List Ty) : Option Ty := if ts.isEmpty then some .dynamic else unify ts

example : unify [.number, .bool] = some .string := by decide +kernel
example : unify [.tuple [.number, .bool], .tuple [.string, .bool]] =
    some (.tuple [.string, .bool]) := by
  decide +kernel
example : unify [.tuple [], .set .number] = some (.set .number) := by decide +kernel

end Ty

end MarkedValues
