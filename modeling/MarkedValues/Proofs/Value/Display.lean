import MarkedValues.Proofs.Value.Numbers
import MarkedValues.Value.Text

/-!
What the text for readers depends on. Values that differ only below a sensitive mark, however deep
it stands and whatever lies below it, have the same text.
-/
namespace MarkedValues

/-- Content that is one, or equal as numbers are: the zeros of both signs are. -/
def Scalar.Agrees (a b : Scalar) : Prop := a = b ∨ a.same b = true

def SequenceKind.alike : SequenceKind → SequenceKind → Bool
  | .list _, .list _ | .set _, .set _ | .tuple, .tuple => true
  | _, _ => false

def MappingKind.alike : MappingKind → MappingKind → Bool
  | .map _, .map _ | .object, .object => true
  | _, _ => false

namespace Value

open MarkedValues.Lists
open Text (quoted)

def Clear (m n : MarkSet) : Prop := sensitiveMark ∉ m ∧ sensitiveMark ∉ n

/-- Both values are marked sensitive, or neither is and they agree in state, kind of content,
    content of primitives, number of elements and keys, and their parts are so related in turn. -/
inductive LowEquivalent : Value → Value → Prop
  | hidden {v w : Value} (left : sensitiveMark ∈ v.marks) (right : sensitiveMark ∈ w.marks) :
    LowEquivalent v w
  | null {t u : Ty} {m n : MarkSet} (clear : Clear m n) : LowEquivalent (.null t m) (.null u n)
  | unknown {t u : Ty} {r q : Bool} {m n : MarkSet} (clear : Clear m n) :
    LowEquivalent (.unknown t r m) (.unknown u q n)
  | scalar {a b : Scalar} {m n : MarkSet} (clear : Clear m n) (content : a.Agrees b) :
    LowEquivalent (.scalar a m) (.scalar b n)
  | sequence {k l : SequenceKind} {xs ys : List Value} {m n : MarkSet} (clear : Clear m n)
    (kind : k.alike l = true) (elems : List.Forall₂ LowEquivalent xs ys) :
    LowEquivalent (.sequence k xs m) (.sequence l ys n)
  | mapping {k l : MappingKind} {xs ys : List (String × Value)} {m n : MarkSet} (clear : Clear m n)
    (kind : k.alike l = true) (keys : Dict.keys xs = Dict.keys ys)
    (values : List.Forall₂ LowEquivalent (Dict.values xs) (Dict.values ys)) :
    LowEquivalent (.mapping k xs m) (.mapping l ys n)

theorem displayAll_eq_map (vs : List Value) : displayAll vs = vs.map display := by
  induction vs with
  | nil => rfl
  | cons v vs ih => rw [displayAll, ih, List.map_cons]

theorem displayEntries_eq_map (es : List (String × Value)) :
    displayEntries es = (Dict.mapValues display es).map fun e => quoted e.1 ++ ": " ++ e.2 := by
  induction es with
  | nil => rfl
  | cons e es ih =>
    obtain ⟨k, v⟩ := e
    rw [displayEntries, ih]
    rfl

/-- Nothing of a value marked sensitive is in its text. -/
theorem display_of_sensitive {v : Value} (h : sensitiveMark ∈ v.marks) :
    v.display = "(sensitive value)" := by
  have marked : v.hasMark sensitiveMark = true := MarkSet.contains_iff.2 h
  rw [display.eq_def, if_pos marked]

theorem not_hasMark {v : Value} (h : sensitiveMark ∉ v.marks) :
    ¬ v.hasMark sensitiveMark = true := by
  rwa [hasMark, MarkSet.contains_iff]

theorem display_null {t : Ty} {m : MarkSet} (h : sensitiveMark ∉ m) :
    (null t m).display = "null" := by
  rw [display, if_neg (not_hasMark (v := null t m) h)]

theorem display_unknown {t : Ty} {r : Bool} {m : MarkSet} (h : sensitiveMark ∉ m) :
    (unknown t r m).display = "(unknown)" := by
  rw [display, if_neg (not_hasMark (v := unknown t r m) h)]

theorem display_sequence {k : SequenceKind} {es : List Value} {m : MarkSet} (h : sensitiveMark ∉ m) :
    (sequence k es m).display = bracketed (es.map display) := by
  rw [display, if_neg (not_hasMark (v := sequence k es m) h), displayAll_eq_map]

theorem display_mapping {k : MappingKind} {es : List (String × Value)} {m : MarkSet}
    (h : sensitiveMark ∉ m) : (mapping k es m).display =
      braced ((Dict.mapValues display es).map fun e => quoted e.1 ++ ": " ++ e.2) := by
  rw [display, if_neg (not_hasMark (v := mapping k es m) h), displayEntries_eq_map]

theorem format_zeros : Number.zero.format = Number.negativeZero.format := by
  decide +kernel

theorem format_congr {a b : Number} (h : a.same b = true) : a.format = b.format := by
  rcases Number.eq_or_zeros_of_same h with rfl | ⟨rfl, rfl⟩ | ⟨rfl, rfl⟩
  · rfl
  · exact format_zeros
  · exact format_zeros.symm

def scalarText : Scalar → String
  | .string s => quoted s
  | .number n => n.format
  | .bool b => toString b

theorem display_scalar {s : Scalar} {m : MarkSet} (h : sensitiveMark ∉ m) :
    (scalar s m).display = scalarText s := by
  cases s <;> rw [display, if_neg (not_hasMark (v := scalar _ m) h)] <;> rfl

theorem scalarText_congr {a b : Scalar} (h : a.Agrees b) : scalarText a = scalarText b := by
  rcases h with rfl | same
  · rfl
  · cases a <;> cases b <;> simp only [Scalar.same, beq_iff_eq, Bool.false_eq_true] at same
    · rw [same]
    · exact format_congr same
    · rw [same]

/-- Low-equivalent values have the same text. -/
theorem display_of_lowEquivalent {v w : Value} (h : LowEquivalent v w) : v.display = w.display := by
  have hidden : ∀ {x y : Value}, sensitiveMark ∈ x.marks → sensitiveMark ∈ y.marks →
      x.display = y.display := fun left right =>
    (display_of_sensitive left).trans (display_of_sensitive right).symm
  induction v generalizing w with
  | null t m =>
    cases h with
    | hidden left right => exact hidden left right
    | null clear => rw [display_null clear.1, display_null clear.2]
  | unknown t r m =>
    cases h with
    | hidden left right => exact hidden left right
    | unknown clear => rw [display_unknown clear.1, display_unknown clear.2]
  | scalar s m =>
    cases h with
    | hidden left right => exact hidden left right
    | scalar clear content =>
      rw [display_scalar clear.1, display_scalar clear.2, scalarText_congr content]
  | sequence k xs m ih =>
    cases h with
    | hidden left right => exact hidden left right
    | sequence clear _ elems =>
      have texts := map_eq_of_forall₂ (forall₂_imp_left (fun x hx y hxy => ih x hx hxy) elems)
      rw [display_sequence clear.1, display_sequence clear.2, texts]
  | mapping k xs m ih =>
    cases h with
    | hidden left right => exact hidden left right
    | @mapping _ _ _ ys _ _ clear _ keys values =>
      have each : ∀ x ∈ Dict.values xs, ∀ y, LowEquivalent x y → x.display = y.display :=
        List.forall_mem_map.2 fun x hx y hxy => ih x hx hxy
      have texts := map_eq_of_forall₂ (forall₂_imp_left each values)
      have entries : Dict.mapValues display xs = Dict.mapValues display ys := by
        refine Dict.ext ?_ ?_
        · rw [Dict.keys_mapValues, Dict.keys_mapValues, keys]
        · rw [Dict.values_mapValues, Dict.values_mapValues, texts]
      rw [display_mapping clear.1, display_mapping clear.2, entries]

def keyedAccount : Value :=
  .mapping .object [("key", (string "hunter2").withMark sensitiveMark),
    ("rows", tuple [list .number [number .zero, nullOf .number],
      (list .bool [bool true]).withMark sensitiveMark])] ∅

def openAccount : Value :=
  .mapping .object [("key", (unknownOf .dynamic).withMarks (MarkSet.ofList ["audit", sensitiveMark])),
    ("rows", tuple [list .dynamic [number .negativeZero, (nullOf .bool).withMark "audit"],
      (nullOf (.list .string)).withMark sensitiveMark])] (MarkSet.ofList ["audit"])

theorem accounts_display :
    LowEquivalent keyedAccount openAccount ∧ keyedAccount.display = openAccount.display ∧
      openAccount.display =
        "\x7b\"key\": (sensitive value), \"rows\": [[0, null], (sensitive value)]\x7d" := by
  have zeros : Scalar.Agrees (.number .zero) (.number .negativeZero) := .inr (by decide +kernel)
  have rows : LowEquivalent (list .number [number .zero, nullOf .number])
      (list .dynamic [number .negativeZero, (nullOf .bool).withMark "audit"]) :=
    .sequence ⟨by decide, by decide⟩ rfl
      (.cons (.scalar ⟨by decide, by decide⟩ zeros) (.cons (.null ⟨by decide, by decide⟩) .nil))
  have low : LowEquivalent keyedAccount openAccount := by
    refine .mapping ⟨by decide, by decide⟩ rfl rfl (.cons ?_ (.cons ?_ .nil))
    · exact .hidden (by decide) (by decide)
    · exact .sequence ⟨by decide, by decide⟩ rfl
        (.cons rows (.cons (.hidden (by decide) (by decide)) .nil))
  exact ⟨low, display_of_lowEquivalent low, by decide +kernel⟩

end Value

end MarkedValues
