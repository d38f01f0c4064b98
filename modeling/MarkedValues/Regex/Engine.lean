/-!
What is asked of an engine of regular expressions. Which texts are patterns and what they match is
its own affair; the functions with patterns only rely on it that a match has a text.
-/
namespace MarkedValues.Regex

/-- The text of each group of a match, group zero being the whole match; none for a
    group that took no part. -/
abbrev Groups := Nat → Option (List Char)

structure Engine where
  Matcher : Type
  /-- Nothing for a text that is no pattern. -/
  ofText? : String → Option Matcher
  /-- The names of groups one and up, for those that have one. -/
  groupNames : Matcher → List (Option String)
  find : Matcher → (text : List Char) → Option Groups
  findAll : Matcher → (text : List Char) → List Groups
  replaceAll : Matcher → (text replacement : List Char) → List Char
  whole : ∀ {r : Matcher} {text : List Char} {m : Groups},
    find r text = some m → (m 0).isSome = true

end MarkedValues.Regex
