import MarkedValues.Proofs.Call.Soundness
import MarkedValues.Proofs.Standard.Forgetting

/-!
Functions of numbers and strings are sound. Their parameters take known numbers and strings only, so
reading an argument never fails, and their results have the type that is declared.
-/
namespace MarkedValues.Standard

open MarkedValues.Function (Sees Resolvable Runnable Honours Sound honours_of_ty)

variable {engine : Regex.Engine}

variable {f : Function} {seen : List Value}

/-- An argument of a parameter of this type that takes neither null nor unknown arguments. -/
structure Handed (t : Ty) (w : Value) : Prop where
  typed : Ty.Matches w.ty t
  present : w.isNull = false
  known : w.isUnknown = false
  built : w.WellFormed

def isStrict (t : Ty) (p : Param) : Bool := p.ty == t && !p.allow.null && !p.allow.unknown

theorem handed_of_isStrict (run : f.Runnable seen) {i : Nat} {w : Value} {p : Param} {t : Ty}
    (hw : seen[i]? = some w) (hp : f.paramFor i = some p) (strict : isStrict t p = true) :
    Handed t w := by
  simp only [isStrict, Bool.and_eq_true, beq_iff_eq, Bool.not_eq_true'] at strict
  obtain ⟨⟨type, null⟩, unknown⟩ := strict
  obtain ⟨q, hq, sees⟩ := run.places i w hw
  rw [hp] at hq
  cases hq
  have present := sees.null
  have known := run.known i w p hw hp
  rw [null] at present
  rw [unknown] at known
  exact ⟨type ▸ sees.typed, by simpa using present, by simpa using known, sees.built⟩

def declares (f : Function) (i : Nat) (t : Ty) : Bool := f.params[i]?.any (isStrict t)

theorem handed_of_declares (run : f.Runnable seen) {i : Nat} {t : Ty}
    (declared : declares f i t = true) :
    seen[i]? = some (argument seen i) ∧ Handed t (argument seen i) := by
  unfold declares at declared
  cases hp : f.params[i]? with
  | none =>
    rw [hp] at declared
    cases declared
  | some p =>
    rw [hp] at declared
    have inside : i < seen.length :=
      Nat.lt_of_lt_of_le (List.getElem?_eq_some_iff.1 hp).1 (Function.params_length_le run.arity)
    have here : seen[i]? = some (argument seen i) := by
      rw [argument, List.getD_eq_getElem?_getD, List.getElem?_eq_getElem inside, Option.getD_some]
    have param : f.paramFor i = some p := by rw [Function.paramFor, hp, Option.some_or]
    exact ⟨here, handed_of_isStrict run here param declared⟩

def declaresRest (f : Function) (t : Ty) : Bool := f.varParam.any (isStrict t)

theorem handed_of_declaresRest (run : f.Runnable seen) {t : Ty}
    (declared : declaresRest f t = true) {i : Nat} {w : Value} (behind : f.params.length ≤ i)
    (hw : seen[i]? = some w) : Handed t w := by
  unfold declaresRest at declared
  cases hp : f.varParam with
  | none =>
    rw [hp] at declared
    cases declared
  | some p =>
    rw [hp] at declared
    have param : f.paramFor i = some p := by
      rw [Function.paramFor, List.getElem?_eq_none behind, Option.none_or, hp]
    exact handed_of_isStrict run hw param declared

theorem scalar_of_isPrimitive {w : Value} (primitive : w.ty.isPrimitive = true)
    (present : w.isNull = false) (known : w.isUnknown = false) :
    ∃ c m, w = .scalar c m ∧ c.ty = w.ty := by
  cases w with
  | null t m => cases present
  | unknown t r m => cases known
  | scalar c m => exact ⟨c, m, rfl, rfl⟩
  | sequence k es m => cases k <;> cases primitive
  | mapping k es m => cases k <;> cases primitive

theorem Handed.scalar {t : Ty} {w : Value} (h : Handed t w) (primitive : t.isPrimitive = true) :
    ∃ c m, w = .scalar c m ∧ c.ty = t := by
  have type : w.ty = t := by
    have typed := h.typed
    cases t <;> first | exact typed | cases primitive
  obtain ⟨c, m, hw, hc⟩ := scalar_of_isPrimitive (type ▸ primitive) h.present h.known
  exact ⟨c, m, hw, hc.trans type⟩

theorem Handed.text {i : Nat} {w : Value} (h : Handed .string w) (hw : seen[i]? = some w) :
    Ends (fun _ => True) (textAt seen i) := by
  obtain ⟨c, m, rfl, hc⟩ := h.scalar rfl
  cases c <;> cases hc
  rw [textAt, hw]
  trivial

theorem Handed.number {i : Nat} {w : Value} (h : Handed .number w) (hw : seen[i]? = some w) :
    Ends (fun _ => True) (numberAt seen i) := by
  obtain ⟨c, m, rfl, hc⟩ := h.scalar rfl
  cases c <;> cases hc
  rw [numberAt, hw]
  trivial

theorem ends_wholeAt {i : Nat} (h : Ends (fun _ => True) (numberAt seen i)) :
    Ends (fun _ => True) (wholeAt seen i) := by
  refine h.bind fun n _ => ?_
  cases n.toInt? <;> trivial

theorem ends_text (run : f.Runnable seen) {i : Nat} (declared : declares f i .string = true) :
    Ends (fun _ => True) (textAt seen i) := by
  obtain ⟨hw, handed⟩ := handed_of_declares run declared
  exact handed.text hw

theorem ends_number (run : f.Runnable seen) {i : Nat} (declared : declares f i .number = true) :
    Ends (fun _ => True) (numberAt seen i) := by
  obtain ⟨hw, handed⟩ := handed_of_declares run declared
  exact handed.number hw

theorem ends_whole (run : f.Runnable seen) {i : Nat} (declared : declares f i .number = true) :
    Ends (fun _ => True) (wholeAt seen i) :=
  ends_wholeAt (ends_number run declared)

theorem ends_restNumber (run : f.Runnable seen) (declared : declaresRest f .number = true) {i : Nat}
    (behind : f.params.length ≤ i) (inside : i < seen.length) :
    Ends (fun _ => True) (numberAt seen i) := by
  have hw := List.getElem?_eq_getElem inside
  exact (handed_of_declaresRest run declared behind hw).number hw

theorem ends_numbersOf (run : f.Runnable seen) (none : f.params = [])
    (declared : declaresRest f .number = true) : Ends (fun _ => True) (numbersOf seen) := by
  refine (ends_mapM (P := fun _ => True) fun i hi => ?_).imp fun _ _ => trivial
  exact ends_restNumber run declared (none ▸ Nat.zero_le i) (List.mem_range.1 hi)

theorem canonical_of_plainParams (h : plainParams f = true) :
    ∀ i p, f.paramFor i = some p → p.ty.Canonical :=
  fun i p hp => (plain_of_plainParams h i p hp).2.2

theorem sound_of_fixed {t : Ty} (params : plainParams f = true) (rule : f.rule = .fixed t)
    (runs : ∀ ctx seen, f.Runnable seen → Ends (f.Honours t) (f.body ctx seen t)) : f.Sound where
  canonical := canonical_of_plainParams params
  resolves seen _ := by
    rw [resolves_of_fixed rule]
    trivial
  runs ctx seen ret run h := by
    rw [resolves_of_fixed rule] at h
    cases h
    exact runs ctx seen run

theorem sound_of_rule {rule : Resolver} (params : plainParams f = true)
    (resolved : f.rule = .resolved rule)
    (resolves : ∀ seen, f.Resolvable seen → Ends (fun _ => True) (rule seen))
    (runs : ∀ ctx seen ret, f.Runnable seen → rule seen = .ok ret →
      Ends (f.Honours ret) (f.body ctx seen ret)) : f.Sound where
  canonical := canonical_of_plainParams params
  resolves seen resolvable := by
    rw [Function.resolveType, resolved]
    exact (resolves seen resolvable).mapError f.fault_annotate
  runs ctx seen ret run h := runs ctx seen ret run (rule_of_resolveType resolved h)

theorem numeric_sound (name : String) (op : Number → Number) : (numeric name op).Sound := by
  refine sound_of_fixed rfl rfl fun ctx seen run => ?_
  exact (ends_number run (i := 0) rfl).bind fun n _ => honours_of_ty rfl rfl

theorem numericPair_sound (name second : String) (op : Number → Number → Number) :
    (numericPair name second op).Sound := by
  refine sound_of_fixed rfl rfl fun ctx seen run => ?_
  refine (ends_number run (i := 0) rfl).bind fun a _ => ?_
  exact (ends_number run (i := 1) rfl).bind fun b _ => honours_of_ty rfl rfl

theorem picking_sound (name : String) (pick : Number → Number → Number) :
    (picking name pick).Sound := by
  refine sound_of_fixed rfl rfl fun ctx seen run => ?_
  refine (ends_numbersOf run rfl rfl).bind fun ns _ => ?_
  cases ns with
  | nil => rfl
  | cons n ns => exact honours_of_ty rfl rfl

theorem ends_total (ns : List Number) : Ends (fun _ => True) (total ns) := by
  unfold total
  dsimp only
  split <;> trivial

theorem sum_sound : sum.Sound := by
  refine sound_of_fixed rfl rfl fun ctx seen run => ?_
  simp only [sum, sumBody]
  refine ends_ite (fun _ => rfl) fun _ => ends_ite (fun _ => rfl) fun _ =>
    ends_ite (fun _ => rfl) fun _ => ends_ite (fun _ => honours_of_ty rfl rfl) fun _ => ?_
  split
  · rfl
  · exact (ends_total _).bind fun n _ => honours_of_ty rfl rfl

theorem parseint_sound : parseint.Sound := by
  refine sound_of_fixed rfl rfl fun ctx seen run => ?_
  simp only [parseint, parseintBody]
  split
  · rfl
  · refine (ends_whole run (i := 1) rfl).bind fun base _ => ends_ite (fun _ => rfl) fun _ => ?_
    split
    · exact honours_of_ty rfl rfl
    · rfl

theorem range_sound : range.Sound := by
  refine sound_of_fixed rfl rfl fun ctx seen run => ?_
  simp only [range, rangeBody]
  refine (ends_numbersOf run rfl rfl).bind fun ns _ => ?_
  split
  · rfl
  · refine ends_ite (fun _ => rfl) fun _ => ends_ite (fun _ => rfl) fun _ =>
      ends_ite (fun _ => rfl) fun _ => ?_
    split
    · exact honours_of_ty rfl rfl
    · rfl

theorem stringFunction_sound (name : String) (op : List Char → List Char) :
    (stringFunction name op).Sound := by
  refine sound_of_fixed rfl rfl fun ctx seen run => ?_
  exact (ends_text run (i := 0) rfl).bind fun s _ => honours_of_ty rfl rfl

theorem stringPair_sound (name second : String) {ret : Ty} {op : List Char → List Char → Value}
    (type : ∀ s t, (op s t).ty = ret) (present : ∀ s t, (op s t).isNull = false) :
    (stringPair name second ret op).Sound := by
  refine sound_of_fixed rfl rfl fun ctx seen run => ?_
  refine (ends_text run (i := 0) rfl).bind fun s _ => ?_
  exact (ends_text run (i := 1) rfl).bind fun t _ => honours_of_ty (type _ _) (present _ _)

theorem ends_joinLists (i : Nat) (lists : List Value) : Ends (fun _ => True) (joinLists i lists) := by
  induction lists generalizing i with
  | nil => trivial
  | cons list rest ih =>
    rw [joinLists]
    split
    · trivial
    · rfl
    · exact (ih (i + 1)).bind fun _ _ => trivial

theorem join_sound : join.Sound := by
  refine sound_of_fixed rfl rfl fun ctx seen run => ?_
  simp only [join, joinBody]
  refine (ends_text run (i := 0) rfl).bind fun separator _ => ends_ite (fun _ => rfl) fun _ => ?_
  refine (ends_joinLists 1 _).bind fun joined _ => ?_
  cases joined <;> exact honours_of_ty rfl rfl

theorem split_sound : split.Sound := by
  refine sound_of_fixed rfl rfl fun ctx seen run => ?_
  refine (ends_text run (i := 0) rfl).bind fun separator _ => ?_
  exact (ends_text run (i := 1) rfl).bind fun s _ => honours_of_ty rfl rfl

theorem substr_sound : substr.Sound := by
  refine sound_of_fixed rfl rfl fun ctx seen run => ?_
  refine (ends_text run (i := 0) rfl).bind fun s _ => ?_
  refine (ends_whole run (i := 1) rfl).bind fun offset _ => ?_
  exact (ends_whole run (i := 2) rfl).bind fun length _ => honours_of_ty rfl rfl

theorem indent_sound : indent.Sound := by
  refine sound_of_fixed rfl rfl fun ctx seen run => ?_
  refine (ends_whole run (i := 0) rfl).bind fun spaces _ => ?_
  exact (ends_text run (i := 1) rfl).bind fun s _ => honours_of_ty rfl rfl

theorem string?_of_textAt {i : Nat} {s : String} (h : textAt seen i = .ok s) :
    (argument seen i).string? = some s := by
  unfold textAt at h
  rw [argument, List.getD_eq_getElem?_getD]
  cases hw : seen[i]? with
  | none =>
    rw [hw] at h
    cases h
  | some w =>
    rw [hw, Option.bind_some] at h
    cases hs : w.string? with
    | none =>
      rw [hs] at h
      cases h
    | some t =>
      rw [hs] at h
      cases h
      exact hs

theorem ends_matcherAt (i : Nat) (pattern : String) :
    Ends (fun _ => True) (matcherAt engine i pattern) := by
  unfold matcherAt
  cases engine.ofText? pattern <;> trivial

theorem ends_matchType (r : engine.Matcher) : Ends (fun _ => True) (matchType engine r) := by
  unfold matchType
  dsimp only
  refine ends_ite (fun _ => trivial) fun _ => ends_ite (fun _ => trivial) fun _ => ?_
  exact ends_ite (fun _ => trivial) fun _ => rfl

theorem ends_regexType (args : List Value) : Ends (fun _ => True) (regexType engine args) := by
  unfold regexType
  split
  · exact (ends_matcherAt 0 _).bind fun r _ => ends_matchType r
  · trivial

theorem ty_groupValue (m : Regex.Groups) (group : Nat) : (groupValue m group).ty = .string := by
  unfold groupValue
  split <;> rfl

/-- The attributes of a match have the names of the groups, in the same order. -/
theorem types_groupValues (m : Regex.Groups) (i : Nat) (names : List (Option String)) :
    Dict.mapValues Value.ty ((numbered i names).filterMap fun x =>
      x.2.map fun n => (n, groupValue m x.1)) =
      (names.filterMap id).map fun n => (n, .string) := by
  induction names generalizing i with
  | nil => rfl
  | cons name names ih =>
    cases name with
    | none => simpa [numbered] using ih (i + 1)
    | some n => simpa [numbered, Dict.mapValues, ty_groupValue] using ih (i + 1)

theorem ty_object (attrs : List (String × Value)) :
    (Value.object attrs).ty = Ty.objectOf (Dict.mapValues Value.ty attrs) := by
  rw [Ty.objectOf, Dict.ofList_mapValues]
  simp only [Value.object, Value.ty, Value.tyEntries_eq_map, Dict.mapValues]

theorem ty_matchValue {r : engine.Matcher} {t : Ty} (h : matchType engine r = .ok t)
    (m : Regex.Groups) : (matchValue engine r m t).ty = t := by
  unfold matchType at h
  dsimp only at h
  split at h
  · cases h
    exact ty_groupValue m 0
  · split at h
    · cases h
      rfl
    · split at h
      · cases h
        simp only [matchValue, Ty.objectOf]
        rw [ty_object, types_groupValues]
        rfl
      · cases h

theorem isNull_matchValue {r : engine.Matcher} {text : List Char} {m : Regex.Groups}
    (found : engine.find r text = some m) (t : Ty) : (matchValue engine r m t).isNull = false := by
  unfold matchValue
  dsimp only
  split
  · rfl
  · rfl
  · obtain ⟨cs, hcs⟩ := Option.isSome_iff_exists.1 (engine.whole found)
    rw [groupValue, hcs]
    rfl

theorem regex_sound : (regex engine).Sound := by
  refine sound_of_rule rfl rfl (fun seen _ => ends_regexType seen) fun ctx seen ret run h => ?_
  simp only [regex, regexBody]
  refine (ends_text run (i := 0) rfl).self.bind fun pattern hpattern => ?_
  refine (ends_matcherAt 0 pattern).self.bind fun r hr => ?_
  refine (ends_text run (i := 1) rfl).bind fun text _ => ?_
  -- The rule has read the same pattern.
  have type : matchType engine r = .ok ret := by
    have same := string?_of_textAt hpattern.1
    simp only [regexType, same, hr.1] at h
    exact h
  cases found : engine.find r text.toList with
  | none => rfl
  | some m => exact honours_of_ty (ty_matchValue type m) (isNull_matchValue found ret)

theorem regexall_sound : (regexall engine).Sound := by
  refine sound_of_rule rfl rfl (fun seen _ => ?_) fun ctx seen ret run h => ?_
  · exact (ends_regexType seen).bind fun t _ => trivial
  · obtain ⟨t, _, heq⟩ := Outcomes.bind_eq_ok.1 h
    cases heq
    refine (ends_text run (i := 0) rfl).bind fun pattern _ => ?_
    refine (ends_matcherAt 0 pattern).bind fun r _ => ?_
    exact (ends_text run (i := 1) rfl).bind fun text _ => honours_of_ty rfl rfl

theorem regex_replace_sound : (regex_replace engine).Sound := by
  refine sound_of_fixed rfl rfl fun ctx seen run => ?_
  refine (ends_text run (i := 1) rfl).bind fun pattern _ => ?_
  refine (ends_matcherAt 1 pattern).bind fun r _ => ?_
  refine (ends_text run (i := 0) rfl).bind fun text _ => ?_
  exact (ends_text run (i := 2) rfl).bind fun new _ => honours_of_ty rfl rfl

theorem replace_sound : (replace engine).Sound := by
  refine sound_of_fixed rfl rfl fun ctx seen run => ?_
  simp only [replace, replaceBody]
  refine (ends_text run (i := 0) rfl).bind fun s _ => ?_
  refine (ends_text run (i := 1) rfl).bind fun old _ => ?_
  refine (ends_text run (i := 2) rfl).bind fun new _ => ?_
  split
  · exact (ends_matcherAt 1 _).bind fun r _ => honours_of_ty rfl rfl
  · exact honours_of_ty rfl rfl

theorem ends_blockAt (run : f.Runnable seen) {i : Nat} (declared : declares f i .string = true) :
    Ends (fun _ => True) (blockAt seen i) := by
  refine (ends_text run declared).bind fun s _ => ?_
  cases blockOf? s <;> trivial

theorem cidrcontains_sound : cidrcontains.Sound := by
  refine sound_of_fixed rfl rfl fun ctx seen run => ?_
  simp only [cidrcontains, cidrcontainsBody]
  have outerText := ends_text run (f := cidrcontains) (i := 0) rfl
  have innerText := ends_text run (f := cidrcontains) (i := 1) rfl
  refine (ends_blockAt run (f := cidrcontains) (i := 0) rfl).bind fun outer _ => ?_
  refine innerText.bind fun s _ => ?_
  split
  · exact innerText.bind fun _ _ => rfl
  · refine ends_ite (fun _ => ?_) fun _ => honours_of_ty rfl rfl
    exact outerText.bind fun _ _ => innerText.bind fun _ _ => rfl

theorem cidrhost_sound : cidrhost.Sound := by
  refine sound_of_fixed rfl rfl fun ctx seen run => ?_
  simp only [cidrhost, cidrhostBody]
  refine (ends_blockAt run (f := cidrhost) (i := 0) rfl).bind fun p _ => ?_
  refine (ends_whole run (f := cidrhost) (i := 1) rfl).bind fun host _ => ?_
  split
  · exact honours_of_ty rfl rfl
  · rfl

theorem cidrnetmask_sound : cidrnetmask.Sound := by
  refine sound_of_fixed rfl rfl fun ctx seen run => ?_
  simp only [cidrnetmask]
  refine (ends_blockAt run (f := cidrnetmask) (i := 0) rfl).bind fun p _ => ?_
  split
  · exact (ends_text run (f := cidrnetmask) (i := 0) rfl).bind fun _ _ => rfl
  · exact honours_of_ty rfl rfl

theorem cidrsubnet_sound : cidrsubnet.Sound := by
  refine sound_of_fixed rfl rfl fun ctx seen run => ?_
  simp only [cidrsubnet, cidrsubnetBody]
  refine (ends_blockAt run (f := cidrsubnet) (i := 0) rfl).bind fun p _ => ?_
  refine (ends_whole run (f := cidrsubnet) (i := 1) rfl).bind fun newbits _ => ?_
  refine (ends_whole run (f := cidrsubnet) (i := 2) rfl).bind fun number _ => ?_
  refine ends_ite (fun _ => rfl) fun _ => ends_ite (fun _ => rfl) fun _ => ?_
  exact ends_ite (fun _ => rfl) fun _ => honours_of_ty rfl rfl

theorem ends_subnetsFrom {outer : Net.Block} {args : List Value} {i count : Nat}
    (current : Net.Block)
    (reads : ∀ j, i ≤ j → j < i + count → Ends (fun _ => True) (wholeAt args j)) :
    Ends (fun _ => True) (subnetsFrom outer args i current count) := by
  induction count generalizing i current with
  | zero => trivial
  | succ count ih =>
    rw [subnetsFrom]
    refine (reads i (Nat.le_refl i) (by omega)).bind fun newbits _ => ?_
    refine ends_ite (fun _ => rfl) fun _ => ends_ite (fun _ => rfl) fun _ =>
      ends_ite (fun _ => rfl) fun _ => ends_ite (fun _ => rfl) fun _ => ?_
    exact (ih _ fun j hj hlt => reads j (by omega) (by omega)).bind fun _ _ => trivial

theorem cidrsubnets_sound : cidrsubnets.Sound := by
  refine sound_of_fixed rfl rfl fun ctx seen run => ?_
  have nonempty : 1 ≤ seen.length := Function.params_length_le run.arity
  have reads : ∀ j, 1 ≤ j → j < seen.length → Ends (fun _ => True) (wholeAt seen j) :=
    fun j hj hlt => ends_wholeAt (ends_restNumber run (f := cidrsubnets) rfl hj hlt)
  simp only [cidrsubnets, cidrsubnetsBody]
  refine (ends_blockAt run (f := cidrsubnets) (i := 0) rfl).bind fun outer _ => ?_
  refine ends_ite (fun _ => honours_of_ty rfl rfl) fun several => ?_
  refine (reads 1 (Nat.le_refl 1) (by omega)).bind fun newbits _ => ?_
  refine (ends_subnetsFrom _ fun j hj hlt => reads j hj (by omega)).bind fun blocks _ => ?_
  exact honours_of_ty rfl rfl

theorem env_sound : env.Sound := by
  refine sound_of_fixed rfl rfl fun ctx seen run => ?_
  simp only [env, envBody]
  split
  · exact honours_of_ty (Value.ty_withMarks _ _) rfl
  · exact honours_of_ty (Value.ty_withMarks _ _) rfl

theorem sensitive_sound : sensitive.Sound := by
  refine sound_of_rule rfl rfl (fun _ _ => trivial) fun ctx seen ret run h => ?_
  cases h
  exact ⟨nofun, _, Value.convert_of_same (.inr (Value.ty_setMarks _ _))⟩

theorem nonsensitive_sound : nonsensitive.Sound := by
  refine sound_of_rule rfl rfl (fun _ _ => trivial) fun ctx seen ret run h => ?_
  cases h
  exact ⟨nofun, _, Value.convert_of_same (.inr (Value.ty_setMarks _ _))⟩

theorem issensitive_sound : issensitive.Sound :=
  sound_of_fixed rfl rfl fun _ _ _ => honours_of_ty rfl rfl

end MarkedValues.Standard
