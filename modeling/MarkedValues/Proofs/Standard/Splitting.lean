import MarkedValues.Proofs.Call.Delivery
import MarkedValues.Proofs.Call.Primitives
import MarkedValues.Proofs.Call.Table
import MarkedValues.Proofs.Text.Search
import MarkedValues.Proofs.Value.Unmarked

/-!
Splitting, joining and replacing as calls. The pieces of a string joined with their separator are
the string, and replacing the separator by another text is joining the pieces with that. Only a text
between slashes is replaced otherwise, as the pattern that it writes.
-/
namespace MarkedValues.Standard

open Outcomes

variable {engine : Regex.Engine}

/-- Two characters or more, with a slash at either end. -/
structure Slashed (s : List Char) : Prop where
  long : 2 ≤ s.length
  first : s.head? = some '/'
  last : s.getLast? = some '/'

theorem slashed?_eq_some_iff {s pattern : List Char} :
    slashed? s = some pattern ↔ s = '/' :: (pattern ++ ['/']) := by
  simp only [slashed?, Option.bind_eq_bind, Option.bind_eq_some_iff, Text.dropStart?_eq_some_iff,
    Text.dropEnd?_eq_some_iff]
  constructor
  · rintro ⟨rest, rfl, rfl⟩
    rfl
  · rintro rfl
    exact ⟨_, rfl, rfl⟩

theorem slashed_iff {s : List Char} : Slashed s ↔ ∃ pattern, s = '/' :: (pattern ++ ['/']) := by
  constructor
  · rintro ⟨long, first, last⟩
    have given : s ≠ [] := List.ne_nil_of_length_pos (by omega)
    obtain ⟨c, rest, rfl⟩ := List.exists_cons_of_ne_nil given
    have present : rest ≠ [] := by
      rintro rfl
      exact absurd long (by simp)
    cases first
    rw [List.getLast?_cons_of_ne_nil present] at last
    obtain ⟨pattern, rfl⟩ := List.getLast?_eq_some_iff.1 last
    exact ⟨pattern, rfl⟩
  · rintro ⟨pattern, rfl⟩
    exact ⟨by simp, rfl, by simp [List.getLast?_cons]⟩

theorem slashed?_eq_none_iff {s : List Char} : slashed? s = none ↔ ¬ Slashed s := by
  rw [slashed_iff, Option.eq_none_iff_forall_ne_some, not_exists]
  exact forall_congr' fun pattern => not_congr slashed?_eq_some_iff

/-- The pieces of a string between the occurrences of a separator. -/
def pieces (separator s : String) : List String :=
  (Text.split separator.toList s.toList).map String.ofList

theorem call_split (ctx : Context) (x s : String) :
    (table engine).call ctx "split" [.string x, .string s] = .ok (.stringList (pieces x s)) := by
  have taken : split.Takes 0 [.string x, .string s] := .cons rfl rfl (.cons rfl rfl (.nil 2))
  rw [standardTable_call split rfl]
  refine (Function.call_eq_ok_iff rfl taken rfl fun w hw => ?_).2 rfl
  cases hw
  exact ⟨rfl, rfl, rfl⟩

theorem joinable_strings (place : Nat) (parts : List String) :
    joinable place (parts.map .string) = .pieces parts := by
  induction parts generalizing place with
  | nil => rfl
  | cons s parts ih =>
    rw [List.map_cons, joinable, ih]
    rfl

theorem call_join (ctx : Context) (x : String) (parts : List String) :
    (table engine).call ctx "join" [.string x, .stringList parts] =
      .ok (stringOf (Text.join x.toList (parts.map String.toList))) := by
  have delivers : join.Delivers 0 [.string x, .stringList parts] [.string x, .stringList parts] :=
    .cons rfl (Param.handsOver_self rfl rfl rfl (.inr rfl))
      (.cons rfl (Param.handsOver_self (Value.unmarked_stringList parts) rfl rfl (.inr rfl)) (.nil 2))
  have body : join.body ctx [.string x, .stringList parts] .string =
      .ok (stringOf (Text.join x.toList (parts.map String.toList))) := by
    have lists : joinLists 1 [.stringList parts] = .ok (some parts) := by
      have elements : (Value.stringList parts).elements = parts.map .string := rfl
      rw [joinLists, elements, joinable_strings]
      simp [joinLists, bind, Except.bind]
    have first : textAt [.string x, .stringList parts] 0 = .ok x := rfl
    simp [join, joinBody, first, lists, bind, Except.bind]
  rw [standardTable_call join rfl]
  exact delivers.call_eq_ok rfl rfl body
    (Function.finish_of_conform (Function.conform_of_ty rfl rfl rfl))

theorem call_replace (ctx : Context) (s y : String) {x : String} (plain : ¬ Slashed x.toList) :
    (table engine).call ctx "replace" [.string s, .string x, .string y] =
      .ok (stringOf (Text.replace x.toList y.toList s.toList)) := by
  have taken : (replace engine).Takes 0 [.string s, .string x, .string y] :=
    .cons rfl rfl (.cons rfl rfl (.cons rfl rfl (.nil 3)))
  have body : (replace engine).body ctx [.string s, .string x, .string y] .string =
      .ok (stringOf (Text.replace x.toList y.toList s.toList)) := by
    have first : textAt [.string s, .string x, .string y] 0 = .ok s := rfl
    have second : textAt [.string s, .string x, .string y] 1 = .ok x := rfl
    have third : textAt [.string s, .string x, .string y] 2 = .ok y := rfl
    simp [replace, replaceBody, first, second, third, slashed?_eq_none_iff.2 plain, bind, Except.bind]
  rw [standardTable_call (replace engine) rfl]
  refine (Function.call_eq_ok_iff rfl taken rfl fun w hw => ?_).2 body
  cases body.symm.trans hw
  exact ⟨rfl, rfl, rfl⟩

/-- The pieces joined with their separator are the string. None of them holds the separator, when
    that is not empty, and when it writes no pattern either, replacing it is joining the pieces with
    another text. -/
theorem split_join_replace_agree (ctx : Context) (x s y : String) :
    (table engine).call ctx "split" [.string x, .string s] = .ok (.stringList (pieces x s)) ∧
    (table engine).call ctx "join" [.string x, .stringList (pieces x s)] = .ok (.string s) ∧
    (x ≠ "" → ∀ piece ∈ pieces x s, ¬ x.toList <:+: piece.toList) ∧
    (x ≠ "" → ¬ Slashed x.toList → ∃ r,
      (table engine).call ctx "replace" [.string s, .string x, .string y] = .ok r ∧
      (table engine).call ctx "join" [.string y, .stringList (pieces x s)] = .ok r) := by
  have letters : (pieces x s).map String.toList = Text.split x.toList s.toList := by
    simp [pieces, Function.comp_def]
  refine ⟨call_split ctx x s, ?_, fun nonempty piece mem => ?_, fun nonempty plain => ?_⟩
  · rw [call_join, letters, Text.join_split, stringOf, String.ofList_toList]
  · have given : x.toList ≠ [] := by simpa using nonempty
    refine Text.not_infix_of_mem_split given (s := s.toList) ?_
    rw [← letters]
    exact List.mem_map_of_mem mem
  · have given : x.toList ≠ [] := by simpa using nonempty
    refine ⟨_, call_replace ctx s y plain, ?_⟩
    rw [call_join, letters, Text.join_split_eq_replace _ given]

/-- A separator that overlaps itself is found at its first place, and then behind that. -/
theorem overlapping_separator_agrees :
    "aa" ≠ "" ∧ ¬ Slashed "aa".toList ∧ pieces "aa" "aaabaa" = ["", "ab", ""] ∧
      standardTable.call {} "join" [.string "aa", .stringList ["", "ab", ""]] =
        .ok (.string "aaabaa") ∧
      (∀ piece ∈ ["", "ab", ""], ¬ "aa".toList <:+: piece.toList) ∧
      standardTable.call {} "replace" [.string "aaabaa", .string "aa", .string "-"] =
        .ok (.string "-ab-") := by
  have nonempty : "aa" ≠ "" := by decide
  have plain : ¬ Slashed "aa".toList := fun slashed => absurd slashed.first (by decide)
  have parts : pieces "aa" "aaabaa" = ["", "ab", ""] := by decide
  obtain ⟨_, joined, apart, replaced⟩ :=
    @split_join_replace_agree Regex.automaton {} "aa" "aaabaa" "-"
  obtain ⟨r, called, again⟩ := replaced nonempty plain
  rw [parts] at joined apart again
  have dashes : r = .string "-ab-" := by
    rw [call_join] at again
    cases again
    rfl
  exact ⟨nonempty, plain, parts, joined, apart nonempty, dashes ▸ called⟩

end MarkedValues.Standard
