import MarkedValues.Regex.Engine
import MarkedValues.Regex.Matching
import MarkedValues.Regex.Parser
import MarkedValues.Regex.Replacement

/-!
The engine that compiles a pattern to a program and follows all its threads through the text.
-/
namespace MarkedValues.Regex

def automaton : Engine where
  Matcher := Pattern
  ofText? := Pattern.ofText?
  groupNames := Pattern.groupNames
  find p text := ((Matcher.ofPattern p).find text).map fun m => m.group? text
  findAll p text := ((Matcher.ofPattern p).findAll text).map fun m => m.group? text
  replaceAll p := (Matcher.ofPattern p).replaceAll
  whole {p text m} found := by
    obtain ⟨slots, match_, rfl⟩ := Option.map_eq_some_iff.1 found
    obtain ⟨cs, covered⟩ := group?_zero match_ text
    rw [covered]
    rfl

end MarkedValues.Regex
