import MarkedValues.Marks.Search

/-!
Marks are names attached to a value. A mark set is the ascending list of its marks, so two sets with
the same members are the same list; membership is the view through which each operation is stated.
-/
namespace MarkedValues

abbrev Mark := String

def sensitiveMark : Mark := "sensitive"

structure MarkSet where
  toList : List Mark
  ascending : toList.Pairwise (· < ·)
  deriving DecidableEq

namespace MarkSet

instance : Membership Mark MarkSet := ⟨fun s m => m ∈ s.toList⟩

theorem mem_def {m : Mark} {s : MarkSet} : m ∈ s ↔ m ∈ s.toList := Iff.rfl

instance (m : Mark) (s : MarkSet) : Decidable (m ∈ s) := inferInstanceAs (Decidable (m ∈ s.toList))

def empty : MarkSet := ⟨[], .nil⟩

instance : EmptyCollection MarkSet := ⟨empty⟩
instance : Inhabited MarkSet := ⟨empty⟩

def isEmpty (s : MarkSet) : Bool := s.toList.isEmpty
def size (s : MarkSet) : Nat := s.toList.length
def contains (s : MarkSet) (m : Mark) : Bool := Names.contains s.toList m

/-- Adds a mark and says whether the set changed. -/
def add (s : MarkSet) (m : Mark) : Bool × MarkSet :=
  ((Names.insert s.toList m).1, ⟨(Names.insert s.toList m).2, Names.pairwise_insert s.ascending⟩)

/-- Removes a mark and says whether the set changed. -/
def remove (s : MarkSet) (m : Mark) : Bool × MarkSet :=
  ((Names.remove s.toList m).1, ⟨(Names.remove s.toList m).2, Names.pairwise_remove s.ascending⟩)

def insert (s : MarkSet) (m : Mark) : MarkSet := (s.add m).2

def erase (s : MarkSet) (m : Mark) : MarkSet := (s.remove m).2

def singleton (m : Mark) : MarkSet := empty.insert m

def insertAll (s : MarkSet) (ms : List Mark) : MarkSet := ms.foldl insert s

def union (s t : MarkSet) : MarkSet := s.insertAll t.toList

instance : Union MarkSet := ⟨union⟩

def ofList (ms : List Mark) : MarkSet := empty.insertAll ms

def text (s : MarkSet) : String := ", ".intercalate s.toList

@[simp] theorem contains_iff {s : MarkSet} {m : Mark} : s.contains m = true ↔ m ∈ s :=
  Names.contains_iff s.ascending

@[simp] theorem not_mem_empty {m : Mark} : ¬ m ∈ (∅ : MarkSet) := List.not_mem_nil

@[simp] theorem mem_insert {s : MarkSet} {m x : Mark} : x ∈ s.insert m ↔ x = m ∨ x ∈ s :=
  Names.mem_insert s.ascending

@[simp] theorem mem_erase {s : MarkSet} {m x : Mark} : x ∈ s.erase m ↔ x ≠ m ∧ x ∈ s :=
  Names.mem_remove s.ascending

theorem mem_insertAll {s : MarkSet} {ms : List Mark} {x : Mark} :
    x ∈ s.insertAll ms ↔ x ∈ ms ∨ x ∈ s := by
  induction ms generalizing s with
  | nil => simp [insertAll]
  | cons m ms ih =>
    have := ih (s := s.insert m)
    simp only [insertAll, List.foldl_cons] at this ⊢
    rw [this]
    simp [or_left_comm, or_assoc]

@[simp] theorem mem_union {s t : MarkSet} {x : Mark} : x ∈ s ∪ t ↔ x ∈ t ∨ x ∈ s := mem_insertAll

@[simp] theorem mem_ofList {ms : List Mark} {x : Mark} : x ∈ ofList ms ↔ x ∈ ms :=
  mem_insertAll.trans (or_iff_left not_mem_empty)

theorem eq_of_ascending_of_mem_iff : ∀ {xs ys : List String}, xs.Pairwise (· < ·) →
    ys.Pairwise (· < ·) → (∀ m, m ∈ xs ↔ m ∈ ys) → xs = ys
  | [], [], _, _, _ => rfl
  | [], y :: _, _, _, h => absurd ((h y).2 (by simp)) (by simp)
  | x :: _, [], _, _, h => absurd ((h x).1 (by simp)) (by simp)
  | x :: xs, y :: ys, hx, hy, h => by
    obtain ⟨hx1, hx2⟩ := List.pairwise_cons.1 hx
    obtain ⟨hy1, hy2⟩ := List.pairwise_cons.1 hy
    have hxy : x = y := by
      rcases List.mem_cons.1 ((h x).1 (by simp)) with e | hmem
      · exact e
      · rcases List.mem_cons.1 ((h y).2 (by simp)) with e | hmem'
        · exact e.symm
        · exact absurd (String.lt_trans (hx1 y hmem') (hy1 x hmem)) (String.lt_irrefl x)
    subst hxy
    rw [eq_of_ascending_of_mem_iff hx2 hy2 fun m => ?_]
    constructor
    · intro hm
      rcases List.mem_cons.1 ((h m).1 (List.mem_cons_of_mem _ hm)) with e | hm'
      · exact absurd (e ▸ hx1 m hm) (String.lt_irrefl x)
      · exact hm'
    · intro hm
      rcases List.mem_cons.1 ((h m).2 (List.mem_cons_of_mem _ hm)) with e | hm'
      · exact absurd (e ▸ hy1 m hm) (String.lt_irrefl x)
      · exact hm'

/-- A mark set is determined by its members. -/
theorem ext {s t : MarkSet} (h : ∀ m, m ∈ s ↔ m ∈ t) : s = t := by
  have := eq_of_ascending_of_mem_iff s.ascending t.ascending h
  cases s; cases t; simp_all

@[simp] theorem isEmpty_iff {s : MarkSet} : s.isEmpty = true ↔ s = ∅ := by
  constructor
  · intro h
    exact ext fun m => by
      have : s.toList = [] := List.isEmpty_iff.1 h
      simp [mem_def, this, EmptyCollection.emptyCollection, empty]
  · rintro rfl; rfl

end MarkSet

end MarkedValues
