import MarkedValues.Proofs.Outcomes
import MarkedValues.Standard.Arguments

/-!
What the standard functions share when they read their arguments.
-/
namespace MarkedValues.Standard

theorem argument_congr {args args' : List Value} {i : Nat} (h : args'[i]? = args[i]?) :
    argument args' i = argument args i := by
  rw [argument, argument, List.getD_eq_getElem?_getD, List.getD_eq_getElem?_getD, h]

theorem wholeAt_of_number {args : List Value} {i : Nat} {n : Number}
    (h : args[i]? = some (.number n)) {k : Int} :
    wholeAt args i = .ok k ↔ n.toInt? = some k := by
  have read : numberAt args i = .ok n := by
    rw [numberAt, h]
    rfl
  simp only [wholeAt, read, bind, Except.bind]
  cases n.toInt? with
  | none => simp [blame]
  | some m => simp

section

variable {α : Type} {i : Nat} {as : List α}

theorem map_snd_numbered (i : Nat) (as : List α) : (numbered i as).map Prod.snd = as := by
  induction as generalizing i with
  | nil => rfl
  | cons a as ih => rw [numbered, List.map_cons, ih]

theorem mem_numbered {x : Nat × α} (h : x ∈ numbered i as) : x.2 ∈ as := by
  rw [← map_snd_numbered i as]
  exact List.mem_map_of_mem h

theorem find?_numbered_eq_none {p : α → Bool} :
    (numbered i as).find? (fun x => p x.2) = none ↔ ∀ a ∈ as, p a = false := by
  rw [List.find?_eq_none, ← map_snd_numbered i as, List.forall_mem_map]
  simp only [Bool.not_eq_true, map_snd_numbered]

end

/-- The places only say whom to blame. -/
theorem unifyArguments_eq_ok {types : List (Nat × Ty)} {what : String} {t : Ty} :
    unifyArguments types what = .ok t ↔ Ty.unify (types.map Prod.snd) = some t := by
  unfold unifyArguments
  cases Ty.unify (types.map Prod.snd) with
  | some u => simp
  | none =>
    simp only [reduceCtorEq, iff_false]
    split <;> simp

end MarkedValues.Standard
