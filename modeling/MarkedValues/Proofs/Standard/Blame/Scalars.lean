import MarkedValues.Proofs.Call.Blame
import MarkedValues.Proofs.Standard.Arguments
import MarkedValues.Standard.Table

/-!
Whom functions of numbers and strings blame. A place that is written into a rule or a body belongs
to a declared parameter, and one that is counted out is counted along the arguments.
-/
namespace MarkedValues.Standard

open Outcomes
open CallError (Within within_ofFault within_ofMessage within_ofConversion)

variable {engine : Regex.Engine}

variable {f : Function} {args : List Value} {n i : Nat}

theorem fails_textAt (n : Nat) (args : List Value) (i : Nat) :
    Fails (Within n) (textAt args i) := by
  unfold textAt
  split
  · exact fails_ok
  · exact fails_error.2 (within_ofFault _)

theorem fails_numberAt (n : Nat) (args : List Value) (i : Nat) :
    Fails (Within n) (numberAt args i) := by
  unfold numberAt
  split
  · exact fails_ok
  · exact fails_error.2 (within_ofFault _)

theorem lt_length_of_numberAt {k : Number} (h : numberAt args i = .ok k) : i < args.length := by
  by_contra outside
  rw [numberAt, List.getElem?_eq_none (Nat.le_of_not_lt outside)] at h
  cases h

theorem fails_wholeAt (args : List Value) (i : Nat) :
    Fails (Within args.length) (wholeAt args i) := by
  apply (fails_numberAt _ args i).bind
  intro k hk
  have inside := lt_length_of_numberAt hk
  split
  · exact fails_ok
  · exact fails_blame _ inside

theorem fails_convertAt (hi : i < n) (v : Value) (t : Ty) :
    Fails (Within n) (convertAt i v t) := by
  unfold convertAt
  cases Value.convert v t with
  | ok w => exact fails_ok
  | error e => exact fails_error.2 ((within_ofConversion e).atArgument hi)

theorem lt_of_mem_numbered {α : Type} {as : List α} {x : Nat × α} (h : x ∈ numbered i as) :
    x.1 < i + as.length := by
  induction as generalizing i with
  | nil => cases h
  | cons a as ih =>
    rw [List.length_cons]
    rcases List.mem_cons.1 h with rfl | h
    · omega
    · have := ih h
      omega

theorem mem_of_firstMisfit {before : List Ty} {types : List (Nat × Ty)} {common t : Ty}
    (h : firstMisfit before types = some (common, i, t)) : (i, t) ∈ types := by
  induction types generalizing before with
  | nil => cases h
  | cons x types ih =>
    rw [firstMisfit] at h
    split at h
    · exact List.mem_cons_of_mem x (ih h)
    · cases h
      exact List.mem_cons_self

theorem fails_unifyArguments {types : List (Nat × Ty)} (places : ∀ x ∈ types, x.1 < n)
    (what : String) : Fails (Within n) (unifyArguments types what) := by
  unfold unifyArguments
  split
  · exact fails_ok
  · split
    · next common j t misfit =>
      have mem := List.mem_of_mem_drop (mem_of_firstMisfit misfit)
      exact fails_error.2 (CallError.within_at (places _ mem))
    · exact fails_error.2 (within_ofFault _)

/-- Blames no argument that is not there, once every declared parameter has one. -/
def Careful (f : Function) : Prop :=
  ∀ seen, f.params.length ≤ seen.length → f.StaysWithin seen

theorem careful_of_fixed {t : Ty} (rule : f.rule = .fixed t)
    (body : ∀ ctx seen ret, f.params.length ≤ seen.length →
      Fails (Within seen.length) (f.body ctx seen ret)) : Careful f := by
  intro seen enough
  constructor
  · intro resolve resolved
    rw [rule] at resolved
    cases resolved
  · intro ctx ret
    exact body ctx seen ret enough

theorem careful_of_rule {resolve : Resolver} (rule : f.rule = .resolved resolve)
    (resolves : ∀ seen, f.params.length ≤ seen.length → Fails (Within seen.length) (resolve seen))
    (body : ∀ ctx seen ret, f.params.length ≤ seen.length →
      Fails (Within seen.length) (f.body ctx seen ret)) : Careful f := by
  intro seen enough
  constructor
  · intro resolve' resolved
    rw [rule] at resolved
    cases resolved
    exact resolves seen enough
  · intro ctx ret
    exact body ctx seen ret enough

theorem numeric_careful (name : String) (op : Number → Number) : Careful (numeric name op) := by
  apply careful_of_fixed rfl
  intro ctx seen ret one
  apply (fails_numberAt _ seen 0).bind
  intro k _
  exact fails_ok

theorem numericPair_careful (name second : String) (op : Number → Number → Number) :
    Careful (numericPair name second op) := by
  apply careful_of_fixed rfl
  intro ctx seen ret two
  apply (fails_numberAt _ seen 0).bind
  intro a _
  apply (fails_numberAt _ seen 1).bind
  intro b _
  exact fails_ok

theorem fails_numbersOf (n : Nat) (args : List Value) : Fails (Within n) (numbersOf args) :=
  fails_mapM fun i _ => fails_numberAt n args i

theorem picking_careful (name : String) (pick : Number → Number → Number) :
    Careful (picking name pick) := by
  apply careful_of_fixed rfl
  intro ctx seen ret _
  apply (fails_numbersOf _ seen).bind
  intro ks _
  cases ks with
  | nil => exact fails_error.2 (within_ofMessage _)
  | cons k ks => exact fails_ok

theorem fails_total (n : Nat) (ks : List Number) : Fails (Within n) (total ks) := by
  unfold total
  dsimp only
  split
  · exact fails_error.2 (within_ofFault _)
  all_goals exact fails_ok

theorem sum_careful : Careful sum := by
  apply careful_of_fixed rfl
  intro ctx seen ret one
  simp only [sum, sumBody]
  apply fails_check one
  intro iterable
  apply fails_check one
  intro nonempty
  apply fails_check one
  intro sequence
  apply fails_ite (fun _ => fails_ok)
  intro known
  split
  · exact fails_blame _ one
  · apply (fails_total _ _).bind
    intro k _
    exact fails_ok

theorem parseint_careful : Careful parseint := by
  apply careful_of_fixed rfl
  intro ctx seen ret (two : 2 ≤ seen.length)
  simp only [parseint, parseintBody]
  split
  · exact fails_blame _ (by omega)
  · apply (fails_wholeAt seen 1).bind
    intro base _
    apply fails_check (by omega)
    intro inside
    split
    · exact fails_ok
    · exact fails_blame _ (by omega)

theorem stringFunction_careful (name : String) (op : List Char → List Char) :
    Careful (stringFunction name op) := by
  apply careful_of_fixed rfl
  intro ctx seen ret _
  apply (fails_textAt _ seen 0).bind
  intro s _
  exact fails_ok

theorem stringPair_careful (name second : String) (t : Ty) (op : List Char → List Char → Value) :
    Careful (stringPair name second t op) := by
  apply careful_of_fixed rfl
  intro ctx seen ret _
  apply (fails_textAt _ seen 0).bind
  intro s _
  apply (fails_textAt _ seen 1).bind
  intro s' _
  exact fails_ok

theorem fails_joinLists {lists : List Value} (fits : i + lists.length ≤ n) :
    Fails (Within n) (joinLists i lists) := by
  induction lists generalizing i with
  | nil => exact fails_ok
  | cons list rest ih =>
    rw [List.length_cons] at fits
    rw [joinLists]
    split
    · exact fails_ok
    · exact fails_blame _ (by omega)
    · apply (ih (by omega)).bind
      intro others _
      exact fails_ok

theorem join_careful : Careful join := by
  apply careful_of_fixed rfl
  intro ctx seen ret (one : 1 ≤ seen.length)
  simp only [join, joinBody]
  apply (fails_textAt _ seen 0).bind
  intro separator _
  apply fails_ite (fun _ => fails_error.2 (within_ofMessage _))
  intro several
  have fits : 1 + (seen.drop 1).length ≤ seen.length := by
    rw [List.length_drop]
    omega
  apply (fails_joinLists fits).bind
  intro joined _
  cases joined <;> exact fails_ok

theorem split_careful : Careful split := by
  apply careful_of_fixed rfl
  intro ctx seen ret _
  apply (fails_textAt _ seen 0).bind
  intro separator _
  apply (fails_textAt _ seen 1).bind
  intro s _
  exact fails_ok

theorem substr_careful : Careful substr := by
  apply careful_of_fixed rfl
  intro ctx seen ret _
  apply (fails_textAt _ seen 0).bind
  intro s _
  apply (fails_wholeAt seen 1).bind
  intro offset _
  apply (fails_wholeAt seen 2).bind
  intro length _
  exact fails_ok

theorem indent_careful : Careful indent := by
  apply careful_of_fixed rfl
  intro ctx seen ret _
  apply (fails_wholeAt seen 0).bind
  intro spaces _
  apply (fails_textAt _ seen 1).bind
  intro s _
  exact fails_ok

theorem fails_matcherAt (hi : i < n) (pattern : String) :
    Fails (Within n) (matcherAt engine i pattern) := by
  unfold matcherAt
  split
  · exact fails_ok
  · exact fails_blame _ hi

theorem fails_matchType (first : 0 < n) (r : engine.Matcher) :
    Fails (Within n) (matchType engine r) := by
  unfold matchType
  apply fails_ite (fun _ => fails_ok)
  intro grouped
  apply fails_ite (fun _ => fails_ok)
  intro named
  exact fails_ite (fun _ => fails_ok) fun mixed => fails_blame _ first

theorem fails_regexType (first : 0 < n) (args : List Value) :
    Fails (Within n) (regexType engine args) := by
  unfold regexType
  split
  · apply (fails_matcherAt first _).bind
    intro r _
    exact fails_matchType first r
  · exact fails_ok

theorem regex_careful : Careful (regex engine) := by
  apply careful_of_rule rfl
  · intro seen (two : 2 ≤ seen.length)
    exact fails_regexType (by omega) seen
  · intro ctx seen ret (two : 2 ≤ seen.length)
    apply (fails_textAt _ seen 0).bind
    intro pattern _
    apply (fails_matcherAt (by omega) pattern).bind
    intro r _
    apply (fails_textAt _ seen 1).bind
    intro text _
    dsimp only
    split
    · exact fails_ok
    · exact fails_blame _ two

theorem regexall_careful : Careful (regexall engine) := by
  apply careful_of_rule rfl
  · intro seen (two : 2 ≤ seen.length)
    apply (fails_regexType (by omega) seen).bind
    intro t _
    exact fails_ok
  · intro ctx seen ret (two : 2 ≤ seen.length)
    apply (fails_textAt _ seen 0).bind
    intro pattern _
    apply (fails_matcherAt (by omega) pattern).bind
    intro r _
    apply (fails_textAt _ seen 1).bind
    intro text _
    exact fails_ok

theorem regex_replace_careful : Careful (regex_replace engine) := by
  apply careful_of_fixed rfl
  intro ctx seen ret (three : 3 ≤ seen.length)
  apply (fails_textAt _ seen 1).bind
  intro pattern _
  apply (fails_matcherAt (by omega) pattern).bind
  intro r _
  apply (fails_textAt _ seen 0).bind
  intro text _
  apply (fails_textAt _ seen 2).bind
  intro new _
  exact fails_ok

theorem replace_careful : Careful (replace engine) := by
  apply careful_of_fixed rfl
  intro ctx seen ret (three : 3 ≤ seen.length)
  apply (fails_textAt _ seen 0).bind
  intro s _
  apply (fails_textAt _ seen 1).bind
  intro old _
  apply (fails_textAt _ seen 2).bind
  intro new _
  split
  · apply (fails_matcherAt (by omega) _).bind
    intro r _
    exact fails_ok
  · exact fails_ok

theorem fails_blockAt (hi : i < n) (args : List Value) : Fails (Within n) (blockAt args i) := by
  apply (fails_textAt _ args i).bind
  intro s _
  split
  · exact fails_ok
  · exact fails_blame _ hi

theorem cidrcontains_careful : Careful cidrcontains := by
  apply careful_of_fixed rfl
  intro ctx seen ret (two : 2 ≤ seen.length)
  simp only [cidrcontains, cidrcontainsBody]
  apply (fails_blockAt (by omega) seen).bind
  intro outer _
  apply (fails_textAt _ seen 1).bind
  intro s _
  split
  · apply (fails_textAt _ seen 1).bind
    intro inner _
    exact fails_blame _ two
  · apply fails_ite
    · intro differ
      apply (fails_textAt _ seen 0).bind
      intro network _
      apply (fails_textAt _ seen 1).bind
      intro address _
      exact fails_error.2 (within_ofFault _)
    · intro same
      exact fails_ok

theorem cidrhost_careful : Careful cidrhost := by
  apply careful_of_fixed rfl
  intro ctx seen ret (two : 2 ≤ seen.length)
  apply (fails_blockAt (by omega) seen).bind
  intro p _
  apply (fails_wholeAt seen 1).bind
  intro host _
  split
  · exact fails_ok
  · exact fails_blame _ two

theorem cidrnetmask_careful : Careful cidrnetmask := by
  apply careful_of_fixed rfl
  intro ctx seen ret one
  apply (fails_blockAt one seen).bind
  intro p _
  split
  · apply (fails_textAt _ seen 0).bind
    intro s _
    exact fails_blame _ one
  · exact fails_ok

theorem cidrsubnet_careful : Careful cidrsubnet := by
  apply careful_of_fixed rfl
  intro ctx seen ret (three : 3 ≤ seen.length)
  apply (fails_blockAt (by omega) seen).bind
  intro p _
  apply (fails_wholeAt seen 1).bind
  intro newbits _
  apply (fails_wholeAt seen 2).bind
  intro number _
  apply fails_check (by omega)
  intro nonnegative
  apply fails_check (by omega)
  intro fits
  apply fails_check (by omega)
  intro accommodated
  exact fails_ok

theorem fails_subnetsFrom {outer : Net.Block} {count : Nat} (current : Net.Block)
    (fits : i + count ≤ args.length) :
    Fails (Within args.length) (subnetsFrom outer args i current count) := by
  induction count generalizing i current with
  | zero => exact fails_ok
  | succ count ih =>
    rw [subnetsFrom]
    apply (fails_wholeAt args i).bind
    intro newbits _
    apply fails_check (by omega)
    intro positive
    apply fails_check (by omega)
    intro small
    apply fails_check (by omega)
    intro inside
    apply fails_check (by omega)
    intro room
    apply (ih _ (by omega)).bind
    intro others _
    exact fails_ok

theorem cidrsubnets_careful : Careful cidrsubnets := by
  apply careful_of_fixed rfl
  intro ctx seen ret (one : 1 ≤ seen.length)
  apply (fails_blockAt one seen).bind
  intro outer _
  apply fails_ite (fun _ => fails_ok)
  intro several
  apply (fails_wholeAt seen 1).bind
  intro newbits _
  apply (fails_subnetsFrom _ (by omega)).bind
  intro blocks _
  exact fails_ok

theorem env_careful : Careful env := by
  apply careful_of_fixed rfl
  intro ctx seen ret _
  simp only [env, envBody]
  split <;> exact fails_ok

theorem sensitive_careful : Careful sensitive :=
  careful_of_rule rfl (fun _ _ => fails_ok) fun _ _ _ _ => fails_ok

theorem nonsensitive_careful : Careful nonsensitive :=
  careful_of_rule rfl (fun _ _ => fails_ok) fun _ _ _ _ => fails_ok

theorem issensitive_careful : Careful issensitive :=
  careful_of_fixed rfl fun _ _ _ _ => fails_ok

end MarkedValues.Standard
