/-!
Finite maps with text keys, held as lists of entries in ascending key order. A list is written out
in full where a type nests through it, so these are functions on plain lists of pairs; `Sorted` says
when such a list is a map in its one canonical form.
-/
namespace MarkedValues

abbrev Dict (α : Type) := List (String × α)

namespace Dict

variable {α β : Type}

def keys (d : Dict α) : List String := d.map Prod.fst
def values (d : Dict α) : List α := d.map Prod.snd

/-- Keys ascend strictly, so each occurs once. -/
def Sorted (d : Dict α) : Prop := d.keys.Pairwise (· < ·)

def hasKey (d : Dict α) (k : String) : Bool := (d.lookup k).isSome

/-- Puts an entry at its place; an entry with the same key is replaced. -/
def insert (k : String) (v : α) : Dict α → Dict α
  | [] => [(k, v)]
  | (l, w) :: rest =>
    if k < l then (k, v) :: (l, w) :: rest
    else if k = l then (k, v) :: rest
    else (l, w) :: insert k v rest

def erase (k : String) : Dict α → Dict α
  | [] => []
  | (l, w) :: rest => if k = l then rest else (l, w) :: erase k rest

def insertAll (d : Dict α) (entries : List (String × α)) : Dict α :=
  entries.foldl (fun acc e => acc.insert e.1 e.2) d

/-- The map of a list of entries; of entries with one key the last wins. -/
def ofList (entries : List (String × α)) : Dict α := insertAll [] entries

theorem mem_keys_insert {k x : String} {v : α} {d : Dict α} :
    x ∈ (insert k v d).keys ↔ x = k ∨ x ∈ d.keys := by
  induction d with
  | nil => simp [insert, keys]
  | cons e rest ih =>
    obtain ⟨l, w⟩ := e
    simp only [insert]
    split
    · simp [keys]
    · split
      · next h => simp [keys, h]
      · simp only [keys, List.map_cons, List.mem_cons] at ih ⊢
        rw [ih]
        exact or_left_comm

theorem sorted_nil : Sorted ([] : Dict α) := List.Pairwise.nil

theorem Sorted.insert {d : Dict α} (h : d.Sorted) (k : String) (v : α) : (d.insert k v).Sorted := by
  induction d with
  | nil => simp [Dict.insert, Sorted, keys]
  | cons e rest ih =>
    obtain ⟨l, w⟩ := e
    have htail : Sorted rest := (List.pairwise_cons.1 h).2
    have hhead : ∀ x ∈ keys rest, l < x := (List.pairwise_cons.1 h).1
    simp only [Dict.insert]
    split
    · next hkl =>
      refine List.pairwise_cons.2 ⟨fun x hx => ?_, h⟩
      rcases List.mem_cons.1 hx with rfl | hx
      · exact hkl
      · exact String.lt_trans hkl (hhead x hx)
    · split
      · next heq => subst heq; exact List.pairwise_cons.2 ⟨hhead, htail⟩
      · next hlt hne =>
        refine List.pairwise_cons.2 ⟨fun x hx => ?_, ih htail⟩
        rcases mem_keys_insert.1 hx with rfl | hx
        · exact Std.lt_of_le_of_ne (String.not_lt.1 hlt) (fun e => hne e.symm)
        · exact hhead x hx

theorem Sorted.insertAll {d : Dict α} (h : d.Sorted) (entries : List (String × α)) :
    (d.insertAll entries).Sorted := by
  induction entries generalizing d with
  | nil => exact h
  | cons e rest ih => exact ih (h.insert e.1 e.2)

/-- Building from any list of entries gives a map in canonical form. -/
theorem sorted_ofList (entries : List (String × α)) : (ofList entries).Sorted :=
  sorted_nil.insertAll entries

theorem lookup_cons_self (k : String) (v : α) (d : Dict α) :
    List.lookup k ((k, v) :: d) = some v :=
  List.lookup_cons_self

theorem lookup_cons_of_ne {k x : String} (h : x ≠ k) (v : α) (d : Dict α) :
    List.lookup x ((k, v) :: d) = d.lookup x := by
  rw [List.lookup_cons, beq_false_of_ne h]

theorem mem_of_lookup {d : Dict α} {k : String} {v : α} (h : d.lookup k = some v) :
    (k, v) ∈ d := by
  induction d with
  | nil => cases h
  | cons e rest ih =>
    obtain ⟨l, w⟩ := e
    by_cases hk : k = l
    · subst hk
      rw [lookup_cons_self] at h
      cases h
      exact List.mem_cons_self
    · rw [lookup_cons_of_ne hk] at h
      exact List.mem_cons_of_mem _ (ih h)

theorem lookup_insert (k x : String) (v : α) (d : Dict α) :
    (insert k v d).lookup x = if x = k then some v else d.lookup x := by
  induction d with
  | nil =>
    by_cases h : x = k
    · simp [insert, h]
    · simp only [insert, if_neg h]
      exact lookup_cons_of_ne h v []
  | cons e rest ih =>
    obtain ⟨l, w⟩ := e
    by_cases hx : x = k
    · subst hx
      simp only [insert]
      split
      · exact lookup_cons_self x v _
      · split
        · exact lookup_cons_self x v _
        · next hne => simpa [lookup_cons_of_ne hne] using ih
    · simp only [insert, if_neg hx] at ih ⊢
      split
      · exact lookup_cons_of_ne hx v _
      · split
        · next hkl => subst hkl; rw [lookup_cons_of_ne hx, lookup_cons_of_ne hx]
        · rw [List.lookup_cons, List.lookup_cons, ih]

end Dict

end MarkedValues
