import MarkedValues.Proofs.Call.MarkFlow
import MarkedValues.Proofs.Value.Unmarked
import MarkedValues.Standard.Arithmetic
import MarkedValues.Standard.Network
import MarkedValues.Standard.Patterns
import MarkedValues.Standard.Scanning
import MarkedValues.Standard.Strings

/-!
Functions whose results are made anew: numbers, strings, bools, and lists of these. No part of an
argument gets into such a result, and with it no mark.
-/
namespace MarkedValues.Standard

open Outcomes

variable {engine : Regex.Engine}

theorem numeric_unmarked (name : String) (op : Number → Number) :
    (numeric name op).BodyUnmarked := by
  intro ctx args ret _
  simp [numeric, gives_bind]

theorem numericPair_unmarked (name second : String) (op : Number → Number → Number) :
    (numericPair name second op).BodyUnmarked := by
  intro ctx args ret _
  simp [numericPair, gives_bind]

theorem picking_unmarked (name : String) (pick : Number → Number → Number) :
    (picking name pick).BodyUnmarked := by
  intro ctx args ret _
  simp only [picking, gives_bind]
  intro ns _
  cases ns <;> simp

theorem sum_unmarked : sum.BodyUnmarked := by
  intro ctx args ret _
  simp only [sum, sumBody, gives_ite]
  simp
  split <;> simp [gives_bind]

theorem parseint_unmarked : parseint.BodyUnmarked := by
  intro ctx args ret _
  simp only [parseint, parseintBody]
  split
  · simp
  · simp only [gives_bind, gives_ite]
    intro base _
    split <;> simp

theorem range_unmarked : range.BodyUnmarked := by
  intro ctx args ret _
  simp only [range, rangeBody, gives_bind]
  intro ns _
  split
  · simp
  · simp only [gives_ite]
    split <;> simp

theorem stringFunction_unmarked (name : String) (op : List Char → List Char) :
    (stringFunction name op).BodyUnmarked := by
  intro ctx args ret _
  simp [stringFunction, gives_bind]

theorem stringPair_unmarked (name second : String) {t : Ty} {op : List Char → List Char → Value}
    (fresh : ∀ s x, (op s x).Unmarked) : (stringPair name second t op).BodyUnmarked := by
  intro ctx args ret _
  simp [stringPair, gives_bind, fresh]

@[simp] theorem unmarked_stringOf (cs : List Char) : (stringOf cs).Unmarked := rfl

theorem join_unmarked : join.BodyUnmarked := by
  intro ctx args ret _
  simp only [join, joinBody, gives_bind, gives_ite]
  intro separator _
  refine ⟨fun _ => gives_error, fun _ parts _ => ?_⟩
  cases parts <;> simp

theorem split_unmarked : split.BodyUnmarked := by
  intro ctx args ret _
  simp [split, gives_bind]

theorem substr_unmarked : substr.BodyUnmarked := by
  intro ctx args ret _
  simp [substr, gives_bind]

theorem indent_unmarked : indent.BodyUnmarked := by
  intro ctx args ret _
  simp [indent, gives_bind]

theorem groupValue_unmarked (m : Regex.Groups) (group : Nat) : (groupValue m group).Unmarked := by
  unfold groupValue
  split <;> simp

theorem matchValue_unmarked (r : engine.Matcher) (m : Regex.Groups) (t : Ty) :
    (matchValue engine r m t).Unmarked := by
  unfold matchValue
  split
  · simp only [Value.unmarked_list, List.forall_mem_map]
    exact fun place _ => groupValue_unmarked m place.1
  · apply Value.unmarked_object
    intro x hx
    obtain ⟨⟨i, name⟩, _, found⟩ := List.mem_filterMap.1 hx
    obtain ⟨n, _, rfl⟩ := Option.map_eq_some_iff.1 found
    exact groupValue_unmarked m i
  · exact groupValue_unmarked m 0

theorem regex_unmarked : (regex engine).BodyUnmarked := by
  intro ctx args ret _
  simp only [regex, regexBody, gives_bind]
  intro pattern _ r _ text _
  split
  · simp [matchValue_unmarked]
  · simp

theorem regexall_unmarked : (regexall engine).BodyUnmarked := by
  intro ctx args ret _
  simp [regexall, regexallBody, gives_bind, matchValue_unmarked]

theorem regex_replace_unmarked : (regex_replace engine).BodyUnmarked := by
  intro ctx args ret _
  simp [regex_replace, gives_bind]

theorem replace_unmarked : (replace engine).BodyUnmarked := by
  intro ctx args ret _
  simp only [replace, replaceBody, gives_bind]
  intro s _ old _ new _
  split <;> simp [gives_bind]

theorem cidrcontains_unmarked : cidrcontains.BodyUnmarked := by
  intro ctx args ret _
  simp only [cidrcontains, cidrcontainsBody, gives_bind]
  intro outer _ text _
  split
  · simp [gives_bind]
  · simp [gives_bind, gives_ite]

theorem cidrhost_unmarked : cidrhost.BodyUnmarked := by
  intro ctx args ret _
  simp only [cidrhost, cidrhostBody, gives_bind]
  intro block _ host _
  split <;> simp

theorem cidrnetmask_unmarked : cidrnetmask.BodyUnmarked := by
  intro ctx args ret _
  simp only [cidrnetmask, gives_bind]
  intro block _
  split <;> simp [gives_bind]

theorem cidrsubnet_unmarked : cidrsubnet.BodyUnmarked := by
  intro ctx args ret _
  simp [cidrsubnet, cidrsubnetBody, gives_bind, gives_ite]

theorem cidrsubnets_unmarked : cidrsubnets.BodyUnmarked := by
  intro ctx args ret _
  simp [cidrsubnets, cidrsubnetsBody, gives_bind, gives_ite]

@[simp] theorem boolOrUnknown_unmarked (answer : Option Bool) :
    (boolOrUnknown answer).Unmarked := by
  cases answer <;> rfl

theorem contains_unmarked : contains.BodyUnmarked := by
  intro ctx args ret _
  simp [contains, containsBody, gives_ite]

theorem index_unmarked : index.BodyUnmarked := by
  intro ctx args ret _
  simp only [index, indexBody, gives_ite]
  simp
  split <;> simp

theorem boolList_unmarked (name : String) (stop nullCounts : Bool) :
    (boolList name stop nullCounts).BodyUnmarked := by
  intro ctx args ret _
  simp [boolList]

theorem length_unmarked : length.BodyUnmarked := by
  intro ctx args ret _
  simp only [length]
  split <;> simp

end MarkedValues.Standard
