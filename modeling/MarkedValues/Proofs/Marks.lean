import Mathlib.Order.BooleanAlgebra.Set
import MarkedValues.Marks

/-!
Mark sets follow the sets that they stand for. A step edits the stored list at the places that
searches report, and the list stays an ascending list of the members of the set that the same step
leads to; so does every run of steps, and two runs end in one list exactly when they end in one set.
-/
namespace MarkedValues

/-- The names are the members of the set, in ascending order. -/
structure Represents (names : List String) (S : Set String) : Prop where
  ascending : names.Pairwise (· < ·)
  members : ∀ m, m ∈ names ↔ m ∈ S

namespace Represents

variable {names : List String} {S : Set String} (h : Represents names S) (m : String)

include h

theorem contains_iff : Names.contains names m = true ↔ m ∈ S :=
  (Names.contains_iff h.ascending).trans (h.members m)

theorem insert_changes : (Names.insert names m).1 = true ↔ insert m S ≠ S := by
  rw [Names.insert_changes h.ascending, h.members, ne_eq, Set.insert_eq_self]

theorem remove_changes : (Names.remove names m).1 = true ↔ S \ {m} ≠ S := by
  rw [Names.remove_changes h.ascending, h.members, ne_eq, sdiff_eq_left, Set.disjoint_singleton_right,
    not_not]

theorem insert : Represents (Names.insert names m).2 (insert m S) where
  ascending := Names.pairwise_insert h.ascending
  members := fun x => by
    rw [Names.mem_insert h.ascending, h.members, Set.mem_insert_iff]

theorem remove : Represents (Names.remove names m).2 (S \ {m}) where
  ascending := Names.pairwise_remove h.ascending
  members := fun x => by
    rw [Names.mem_remove h.ascending, h.members, Set.mem_sdiff, Set.mem_singleton_iff, and_comm]

theorem eq_iff {others : List String} {T : Set String} (h' : Represents others T) :
    names = others ↔ S = T := by
  constructor
  · rintro rfl
    exact Set.ext fun m => (h.members m).symm.trans (h'.members m)
  · rintro rfl
    exact MarkSet.eq_of_ascending_of_mem_iff h.ascending h'.ascending fun m =>
      (h.members m).trans (h'.members m).symm

end Represents

namespace MarkSet

def members (s : MarkSet) : Set Mark := {m | m ∈ s}

theorem represents_members (s : MarkSet) : Represents s.toList s.members :=
  ⟨s.ascending, fun _ => Iff.rfl⟩

theorem toList_inj {s t : MarkSet} : s.toList = t.toList ↔ s = t := by
  cases s
  cases t
  simp

/-- What is done with a mark set. Collecting starts from nothing. -/
inductive Step where
  | insert (m : Mark)
  | remove (m : Mark)
  | extend (other : MarkSet)
  | collect (ms : List Mark)

namespace Step

def apply (s : MarkSet) : Step → MarkSet
  | .insert m => (s.add m).2
  | .remove m => (s.remove m).2
  | .extend other => s ∪ other
  | .collect ms => ofList ms

def onSet (S : Set Mark) : Step → Set Mark
  | .insert m => Insert.insert m S
  | .remove m => S \ {m}
  | .extend other => S ∪ other.members
  | .collect ms => {m | m ∈ ms}

def editAll (names ms : List Mark) : List Mark :=
  ms.foldl (fun names m => (Names.insert names m).2) names

def edit (names : List Mark) : Step → List Mark
  | .insert m => (Names.insert names m).2
  | .remove m => (Names.remove names m).2
  | .extend other => editAll names other.toList
  | .collect ms => editAll [] ms

theorem toList_insertAll (s : MarkSet) (ms : List Mark) :
    (s.insertAll ms).toList = editAll s.toList ms := by
  induction ms generalizing s with
  | nil => rfl
  | cons m ms ih => exact ih (s.insert m)

theorem toList_apply (s : MarkSet) (step : Step) : (step.apply s).toList = step.edit s.toList := by
  cases step with
  | insert m => rfl
  | remove m => rfl
  | extend other => exact toList_insertAll s other.toList
  | collect ms => exact toList_insertAll empty ms

theorem represents_editAll {names : List Mark} {S : Set Mark} (h : Represents names S)
    (ms : List Mark) : Represents (editAll names ms) (S ∪ {m | m ∈ ms}) := by
  induction ms generalizing names S with
  | nil => simpa [editAll] using h
  | cons m ms ih =>
    have rest := ih (h.insert m)
    have same : Insert.insert m S ∪ {x | x ∈ ms} = S ∪ {x | x ∈ m :: ms} := by
      ext x
      simp [or_left_comm, or_assoc]
    rwa [same] at rest

theorem represents_edit {names : List Mark} {S : Set Mark} (h : Represents names S) (step : Step) :
    Represents (step.edit names) (step.onSet S) := by
  cases step with
  | insert m => exact h.insert m
  | remove m => exact h.remove m
  | extend other => exact represents_editAll h other.toList
  | collect ms =>
    have nothing : Represents [] ∅ := ⟨.nil, fun m => by simp⟩
    have all := represents_editAll nothing ms
    rwa [Set.empty_union] at all

end Step

def run (s : MarkSet) (steps : List Step) : MarkSet := steps.foldl Step.apply s

def runOnSet (S : Set Mark) (steps : List Step) : Set Mark := steps.foldl Step.onSet S

def runOnList (names : List Mark) (steps : List Step) : List Mark := steps.foldl Step.edit names

theorem toList_run (s : MarkSet) (steps : List Step) :
    (s.run steps).toList = runOnList s.toList steps := by
  induction steps generalizing s with
  | nil => rfl
  | cons step steps ih =>
    rw [runOnList, List.foldl_cons, ← Step.toList_apply]
    exact ih (step.apply s)

theorem represents_run {names : List Mark} {S : Set Mark} (h : Represents names S)
    (steps : List Step) : Represents (runOnList names steps) (runOnSet S steps) := by
  induction steps generalizing names S with
  | nil => exact h
  | cons step steps ih => exact ih (step.represents_edit h)

/-- After any steps from any mark set the stored marks ascend, as the edits of the list alone leave
    them. Membership, and what adding and removing answer next, are those of the set after the same
    steps, and runs that end in one set end in one mark set. -/
theorem run_follows_set (s : MarkSet) (steps : List Step) :
    (s.run steps).toList = runOnList s.toList steps ∧
    (runOnList s.toList steps).Pairwise (· < ·) ∧
    (∀ m, (s.run steps).contains m = true ↔ m ∈ runOnSet s.members steps) ∧
    (∀ m, ((s.run steps).add m).1 = true ↔
      Insert.insert m (runOnSet s.members steps) ≠ runOnSet s.members steps) ∧
    (∀ m, ((s.run steps).remove m).1 = true ↔
      runOnSet s.members steps \ {m} ≠ runOnSet s.members steps) ∧
    ∀ (t : MarkSet) (others : List Step),
      s.run steps = t.run others ↔ runOnSet s.members steps = runOnSet t.members others := by
  have edited := represents_run s.represents_members steps
  have kept : Represents (s.run steps).toList (runOnSet s.members steps) := toList_run s steps ▸ edited
  refine ⟨toList_run s steps, edited.ascending, kept.contains_iff, kept.insert_changes,
    kept.remove_changes, fun t others => ?_⟩
  rw [← toList_inj, toList_run t others]
  exact kept.eq_iff (represents_run t.represents_members others)

end MarkSet

end MarkedValues
