import MarkedValues.Proofs.Call.Table
import MarkedValues.Proofs.Standard.Casts

/-!
Attaching, detaching and asking for the sensitive mark. The argument goes through the call as it is,
in whatever state, and only its own mark is changed or looked at: marks further inside have no say.
-/
namespace MarkedValues

variable {engine : Regex.Engine}

namespace MarkSet

variable (s : MarkSet) (m : Mark)

theorem insert_insert : (s.insert m).insert m = s.insert m := by
  apply ext
  simp

theorem erase_insert : (s.insert m).erase m = s.erase m := by
  apply ext
  intro x
  simp only [mem_erase, mem_insert]
  constructor
  · rintro ⟨differs, rfl | hx⟩
    · exact absurd rfl differs
    · exact ⟨differs, hx⟩
  · rintro ⟨differs, hx⟩
    exact ⟨differs, .inr hx⟩

theorem insert_erase : (s.erase m).insert m = s.insert m := by
  apply ext
  intro x
  simp only [mem_erase, mem_insert]
  constructor
  · rintro (rfl | ⟨_, hx⟩)
    · exact .inl rfl
    · exact .inr hx
  · rintro (rfl | hx)
    · exact .inl rfl
    · by_cases same : x = m
      · exact .inl same
      · exact .inr ⟨same, hx⟩

theorem erase_erase : (s.erase m).erase m = s.erase m := by
  apply ext
  simp

end MarkSet

namespace Value

variable (v : Value) (m : Mark)

@[simp] theorem ty_withMark : (v.withMark m).ty = v.ty := ty_setMarks v _

@[simp] theorem ty_withoutMark : (v.withoutMark m).ty = v.ty := ty_setMarks v _

@[simp] theorem marks_withMark : (v.withMark m).marks = v.marks.insert m := marks_setMarks v _

@[simp] theorem marks_withoutMark : (v.withoutMark m).marks = v.marks.erase m := marks_setMarks v _

@[simp] theorem unmarked_withMark : (v.withMark m).unmarked = v.unmarked := setMarks_setMarks v _ _

@[simp] theorem unmarked_withoutMark : (v.withoutMark m).unmarked = v.unmarked :=
  setMarks_setMarks v _ _

theorem withMark_withMark : (v.withMark m).withMark m = v.withMark m := by
  rw [withMark, marks_withMark, MarkSet.insert_insert, withMark, setMarks_setMarks]

theorem withoutMark_withMark : (v.withMark m).withoutMark m = v.withoutMark m := by
  rw [withoutMark, marks_withMark, MarkSet.erase_insert, withMark, setMarks_setMarks, withoutMark]

theorem withoutMark_withoutMark : (v.withoutMark m).withoutMark m = v.withoutMark m := by
  rw [withoutMark, marks_withoutMark, MarkSet.erase_erase, withoutMark, setMarks_setMarks]

theorem withMark_withoutMark : (v.withoutMark m).withMark m = v.withMark m := by
  rw [withMark, marks_withoutMark, MarkSet.insert_erase, withoutMark, setMarks_setMarks, withMark]

theorem hasMark_withMark : (v.withMark m).hasMark m = true := by
  rw [hasMark, marks_withMark, MarkSet.contains_iff]
  exact MarkSet.mem_insert.2 (.inl rfl)

theorem hasMark_withoutMark : (v.withoutMark m).hasMark m = false := by
  rw [hasMark, marks_withoutMark, Bool.eq_false_iff, ne_eq, MarkSet.contains_iff, MarkSet.mem_erase]
  exact fun kept => kept.1 rfl

end Value

namespace Standard

open Outcomes

theorem call_sensitive (ctx : Context) (v : Value) :
    (table engine).call ctx "sensitive" [v] = .ok (v.withMark sensitiveMark) := by
  rw [standardTable_call sensitive rfl, call_all rfl rfl rfl rfl]
  exact Function.finish_of_ty (f := sensitive) rfl (v.ty_withMark sensitiveMark)

theorem call_nonsensitive (ctx : Context) (v : Value) :
    (table engine).call ctx "nonsensitive" [v] = .ok (v.withoutMark sensitiveMark) := by
  rw [standardTable_call nonsensitive rfl, call_all rfl rfl rfl rfl]
  exact Function.finish_of_ty (f := nonsensitive) rfl (v.ty_withoutMark sensitiveMark)

theorem call_issensitive (ctx : Context) (v : Value) :
    (table engine).call ctx "issensitive" [v] = .ok (.bool (v.hasMark sensitiveMark)) := by
  rw [standardTable_call issensitive rfl, call_all rfl rfl rfl rfl]
  have type : (Value.bool (v.hasMark sensitiveMark)).ty = .bool := rfl
  exact Function.finish_of_ty (f := issensitive) rfl type

/-- The value with the mark and the one without it differ from the value in this mark at the top and
    in nothing else; each of the two functions undoes the other, and asking tells the two apart. -/
theorem sensitivity_changes_one_mark (ctx : Context) (v : Value) :
    ∃ marked cleared : Value,
      (table engine).call ctx "sensitive" [v] = .ok marked ∧
      (table engine).call ctx "nonsensitive" [v] = .ok cleared ∧
      (marked.unmarked = v.unmarked ∧
        ∀ m, m ∈ marked.marks ↔ m = sensitiveMark ∨ m ∈ v.marks) ∧
      (cleared.unmarked = v.unmarked ∧
        ∀ m, m ∈ cleared.marks ↔ m ≠ sensitiveMark ∧ m ∈ v.marks) ∧
      ((table engine).call ctx "sensitive" [marked] = .ok marked ∧
        (table engine).call ctx "sensitive" [cleared] = .ok marked) ∧
      ((table engine).call ctx "nonsensitive" [marked] = .ok cleared ∧
        (table engine).call ctx "nonsensitive" [cleared] = .ok cleared) ∧
      (table engine).call ctx "issensitive" [marked] = .ok (.bool true) ∧
      (table engine).call ctx "issensitive" [cleared] = .ok (.bool false) := by
  refine ⟨v.withMark sensitiveMark, v.withoutMark sensitiveMark, call_sensitive ctx v,
    call_nonsensitive ctx v, ⟨v.unmarked_withMark _, fun m => ?_⟩,
    ⟨v.unmarked_withoutMark _, fun m => ?_⟩, ⟨?_, ?_⟩, ⟨?_, ?_⟩, ?_, ?_⟩
  · rw [Value.marks_withMark, MarkSet.mem_insert]
  · rw [Value.marks_withoutMark, MarkSet.mem_erase]
  · rw [call_sensitive, Value.withMark_withMark]
  · rw [call_sensitive, Value.withMark_withoutMark]
  · rw [call_nonsensitive, Value.withoutMark_withMark]
  · rw [call_nonsensitive, Value.withoutMark_withoutMark]
  · rw [call_issensitive, Value.hasMark_withMark]
  · rw [call_issensitive, Value.hasMark_withoutMark]

end Standard

end MarkedValues
