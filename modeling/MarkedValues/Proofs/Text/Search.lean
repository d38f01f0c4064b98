import MarkedValues.Text.Search

/-!
Splitting, joining and replacing. One scan over the text serves all three laws: putting another text
between the pieces is replacing the separator by it, replacing a text by itself changes nothing, so
the pieces joined with their separator are the text again, and no piece holds the separator.
-/
namespace MarkedValues.Text

section

variable (sep new : List Char)

theorem splitScan_ne_nil (skip : Nat) (cs : List Char) : splitScan sep skip cs ≠ [] := by
  induction cs generalizing skip with
  | nil => simp [splitScan]
  | cons c cs ih =>
    cases skip with
    | succ skip => exact ih skip
    | zero =>
      rw [splitScan]
      split
      · simp
      · split <;> simp

theorem splitScan_of_no_start {c : Char} {cs : List Char} (h : ¬ sep <+: c :: cs) :
    ∃ piece pieces, splitScan sep 0 cs = piece :: pieces ∧
      splitScan sep 0 (c :: cs) = (c :: piece) :: pieces := by
  obtain ⟨piece, pieces, split⟩ := List.exists_cons_of_ne_nil (splitScan_ne_nil sep 0 cs)
  refine ⟨piece, pieces, split, ?_⟩
  rw [splitScan, if_neg (by rwa [List.isPrefixOf_iff_prefix]), split]

theorem splitScan_of_start {c : Char} {cs : List Char} (h : sep <+: c :: cs) :
    splitScan sep 0 (c :: cs) = [] :: splitScan sep (sep.length - 1) cs := by
  rw [splitScan, if_pos (List.isPrefixOf_iff_prefix.2 h)]

/-- Joining with another text replaces the separator by it. -/
theorem join_splitScan (skip : Nat) (cs : List Char) :
    join new (splitScan sep skip cs) = replaceScan sep new skip cs := by
  induction cs generalizing skip with
  | nil => simp [splitScan, replaceScan, join]
  | cons c cs ih =>
    cases skip with
    | succ skip => exact ih skip
    | zero =>
      by_cases start : sep <+: c :: cs
      · rw [splitScan_of_start sep start, replaceScan, if_pos (List.isPrefixOf_iff_prefix.2 start),
          join, List.intercalate_cons_of_ne_nil (splitScan_ne_nil _ _ _), List.nil_append, ← ih]
        rfl
      · obtain ⟨piece, pieces, rest, whole⟩ := splitScan_of_no_start sep start
        rw [whole, replaceScan, if_neg (by rwa [List.isPrefixOf_iff_prefix]), join,
          List.intercalate_cons_cons_left, ← rest, ← ih]
        rfl

theorem join_characters (s : List Char) : join [] (split [] s) = s := by
  induction s with
  | nil => rfl
  | cons c s ih =>
    cases s with
    | nil => rfl
    | cons d s => exact congrArg (c :: ·) ih

variable {sep} (nonempty : sep ≠ [])

include nonempty

theorem replaceScan_self (skip : Nat) (cs : List Char) :
    replaceScan sep sep skip cs = cs.drop skip := by
  induction cs generalizing skip with
  | nil => simp [replaceScan]
  | cons c cs ih =>
    cases skip with
    | succ skip => exact ih skip
    | zero =>
      rw [replaceScan, ih, ih]
      split
      · next start =>
        -- What the first character leaves of the separator is skipped in the rest.
        obtain ⟨d, ds, rfl⟩ := List.exists_cons_of_ne_nil nonempty
        obtain ⟨rest, whole⟩ := List.isPrefixOf_iff_prefix.1 start
        obtain ⟨rfl, rfl⟩ := List.cons.inj whole
        simp
      · rfl

theorem join_split_eq_replace (s : List Char) : join new (split sep s) = replace sep new s := by
  have given : sep.isEmpty = false := by simpa using nonempty
  rw [split, replace, given]
  exact join_splitScan sep new 0 s

theorem replace_self (s : List Char) : replace sep sep s = s := by
  have given : sep.isEmpty = false := by simpa using nonempty
  rw [replace, given]
  exact replaceScan_self nonempty 0 s

/-- The first piece begins the text. -/
theorem prefix_of_splitScan {cs piece : List Char} {pieces : List (List Char)}
    (whole : splitScan sep 0 cs = piece :: pieces) : piece <+: cs := by
  have joined := join_splitScan sep sep 0 cs
  rw [whole, replaceScan_self nonempty, List.drop_zero, join] at joined
  rw [← joined]
  cases pieces with
  | nil => simp
  | cons next rest =>
    rw [List.intercalate_cons_cons, List.append_assoc]
    exact List.prefix_append _ _

theorem not_infix_of_mem_splitScan (skip : Nat) (cs : List Char) :
    ∀ piece ∈ splitScan sep skip cs, ¬ sep <:+: piece := by
  induction cs generalizing skip with
  | nil => simpa [splitScan] using nonempty
  | cons c cs ih =>
    cases skip with
    | succ skip => exact ih skip
    | zero =>
      by_cases start : sep <+: c :: cs
      · rw [splitScan_of_start sep start]
        refine List.forall_mem_cons.2 ⟨?_, ih _⟩
        simpa using nonempty
      · obtain ⟨piece, pieces, rest, whole⟩ := splitScan_of_no_start sep start
        obtain ⟨first, others⟩ := List.forall_mem_cons.1 (rest ▸ ih 0)
        rw [whole]
        refine List.forall_mem_cons.2 ⟨fun inside => ?_, others⟩
        rcases List.infix_cons_iff.1 inside with front | later
        · -- The piece goes on as the text does, so the separator would start here.
          have fits : c :: piece <+: c :: cs :=
            List.cons_prefix_cons.2 ⟨rfl, prefix_of_splitScan nonempty rest⟩
          exact start (front.trans fits)
        · exact first later

/-- No piece holds the separator. -/
theorem not_infix_of_mem_split {s piece : List Char} (mem : piece ∈ split sep s) :
    ¬ sep <:+: piece := by
  have given : sep.isEmpty = false := by simpa using nonempty
  rw [split, given] at mem
  exact not_infix_of_mem_splitScan nonempty 0 s piece mem

omit nonempty in
/-- The pieces with their separator between them are the text. -/
theorem join_split (s : List Char) : join sep (split sep s) = s := by
  by_cases given : sep = []
  · subst given
    exact join_characters s
  · rw [join_split_eq_replace sep given, replace_self given]

end

theorem dropStart?_eq_some_iff {start s rest : List Char} :
    dropStart? start s = some rest ↔ s = start ++ rest := by
  induction start generalizing s with
  | nil => simp [dropStart?, eq_comm]
  | cons c start ih =>
    cases s with
    | nil => simp [dropStart?]
    | cons d s =>
      rw [dropStart?]
      split
      · next same => simp [ih, same]
      · next differ => simp [Ne.symm differ]

theorem dropEnd?_eq_some_iff {stop s rest : List Char} :
    dropEnd? stop s = some rest ↔ s = rest ++ stop := by
  rw [dropEnd?, Option.map_eq_some_iff]
  simp only [dropStart?_eq_some_iff]
  constructor
  · rintro ⟨before, whole, rfl⟩
    simpa using congrArg List.reverse whole
  · rintro rfl
    exact ⟨rest.reverse, by simp, List.reverse_reverse rest⟩

end MarkedValues.Text
