import MarkedValues.Proofs.Call.Resolving
import MarkedValues.Proofs.Call.Table
import MarkedValues.Proofs.Standard.Forgetting

/-!
Answers found by going through elements. An answer that is definite although some elements are
unknown rests on elements that are known, and so it is still the answer when the others are
resolved. The elements of a set may then be in another order, and some may have merged into others.
-/
namespace MarkedValues

open Outcomes
open Value (Completes SameTypeAndMarks)

variable {engine : Regex.Engine}

namespace Standard

theorem fits_ty (t : Ty) (m : MarkSet) (w : Value) (fit : SameTypeAndMarks t m w) : w.ty = t :=
  fit.1

theorem containsScan_iff {v : Value} {saw : Bool} {es : List Value} :
    (containsScan v saw es = some true ↔ ∃ e ∈ es, (e.equals v).bool? = some true) ∧
      (containsScan v saw es = some false ↔
        saw = false ∧ ∀ e ∈ es, (e.equals v).bool? = some false) := by
  induction es generalizing saw with
  | nil => cases saw <;> simp [containsScan]
  | cons e es ih =>
    rw [containsScan]
    cases h : (e.equals v).bool? with
    | none => simp [h, ih]
    | some b => cases b <;> simp [h, ih]

section

variable {v v' : Value} {es es' : List Value} (cv : v.Canonical)
  (canonical : ∀ e ∈ es, e.Canonical) (hv : Completes SameTypeAndMarks v v')
  (parts : List.Forall₂ (Completes SameTypeAndMarks) es es')

include cv canonical hv parts

theorem answers_stand {answer : Bool} : List.Forall₂ (fun e e' : Value =>
    (e.equals v).bool? = some answer → (e'.equals v').bool? = some answer) es es' :=
  Lists.forall₂_imp_left
    (fun e he _ hc => Value.equals_stands fits_ty (canonical e he) cv hc hv) parts

theorem containsScan_stands {b : Bool} (h : containsScan v false es = some b) :
    containsScan v' false es' = some b := by
  cases b with
  | true =>
    rw [containsScan_iff.1] at h ⊢
    obtain ⟨e, he, yes⟩ := h
    obtain ⟨e', he', stands⟩ :=
      Lists.exists_of_mem_right (answers_stand cv canonical hv parts).flip he
    exact ⟨e', he', stands yes⟩
  | false =>
    rw [containsScan_iff.2] at h ⊢
    refine ⟨rfl, fun e' he' => ?_⟩
    obtain ⟨e, he, stands⟩ :=
      Lists.exists_of_mem_right (answers_stand cv canonical hv parts) he'
    exact stands (h.2 e he)

theorem indexScan_stands {place n : Nat} (h : indexScan v place es = .at n) :
    indexScan v' place es' = .at n := by
  induction parts generalizing place with
  | nil => cases h
  | @cons e e' es es' first _ ih =>
    have stands : ∀ answer, (e.equals v).bool? = some answer → (e'.equals v').bool? = some answer :=
      fun _ => Value.equals_stands fits_ty (canonical e (by simp)) cv first hv
    rw [indexScan] at h ⊢
    split at h
    · next yes =>
      rw [stands true yes]
      exact h
    · next no =>
      rw [stands false no]
      exact ih (fun c hc => canonical c (by simp [hc])) h
    · cases h

theorem keyScan_stands {found : Bool} (h : keyScan v es = some found) :
    keyScan v' es' = some found := by
  induction parts generalizing found with
  | nil => exact h
  | @cons e e' es es' first _ ih =>
    have stands : ∀ answer, (v.equals e).bool? = some answer → (v'.equals e').bool? = some answer :=
      fun _ => Value.equals_stands fits_ty cv (canonical e (by simp)) hv first
    rw [keyScan] at h ⊢
    split at h
    · next yes =>
      rw [stands true yes]
      exact h
    · next no =>
      rw [stands false no]
      exact ih (fun c hc => canonical c (by simp [hc])) h
    · cases h

end

/-- Keys found among the candidates, or not, stay so; the values beside them do not matter. -/
theorem matchingValues_stands {search search' values keys keys' : List Value}
    (canonicalSearch : ∀ c ∈ search, c.Canonical) (canonicalKeys : ∀ k ∈ keys, k.Canonical)
    (hsearch : List.Forall₂ (Completes SameTypeAndMarks) search search')
    (hkeys : List.Forall₂ (Completes SameTypeAndMarks) keys keys') {kept : List Value}
    (h : matchingValues search (values.zip keys) = some kept) :
    matchingValues search' (values.zip keys') = some kept := by
  induction hkeys generalizing values kept with
  | nil =>
    rw [List.zip_nil_right] at h ⊢
    exact h
  | @cons k k' keys keys' first _ ih =>
    cases values with
    | nil => exact h
    | cons v values =>
      rw [List.zip_cons_cons, matchingValues] at h ⊢
      obtain ⟨found, hfound, h⟩ := Option.bind_eq_some_iff.1 h
      obtain ⟨others, hothers, h⟩ := Option.bind_eq_some_iff.1 h
      have here := keyScan_stands (canonicalKeys k (by simp)) canonicalSearch first hsearch hfound
      have later := ih (fun k hk => canonicalKeys k (by simp [hk])) hothers
      exact Option.bind_eq_some_iff.2 ⟨found, here, Option.bind_eq_some_iff.2 ⟨others, later, h⟩⟩

/-- Once an unknown has been seen, only an element that decides gives an answer. -/
theorem eq_stop_of_sawUnknown {stop nullCounts b : Bool} {es : List Value}
    (h : boolScan stop nullCounts true es = some b) : b = stop := by
  induction es with
  | nil => cases h
  | cons e es ih =>
    rw [boolScan] at h
    split at h
    · exact ih h
    · split at h
      · split at h
        · exact (Option.some.inj h).symm
        · exact ih h
      · split at h
        · exact (Option.some.inj h).symm
        · exact ih h

theorem bool?_stands {e e' : Value} (h : Completes SameTypeAndMarks e e')
    (known : e.isUnknown = false) : e'.bool? = e.bool? := by
  cases h with
  | unknown _ _ _ => cases known
  | _ => rfl

/-- An unknown that is resolved either decides, as a later element has done
    already, or is passed over. -/
theorem boolScan_stands {stop nullCounts b : Bool} {es es' : List Value}
    (parts : List.Forall₂ (Completes SameTypeAndMarks) es es') {saw saw' : Bool}
    (less : saw' = true → saw = true) (h : boolScan stop nullCounts saw es = some b) :
    boolScan stop nullCounts saw' es' = some b := by
  induction parts generalizing saw saw' with
  | nil =>
    cases saw with
    | true => cases h
    | false =>
      cases saw' with
      | true => cases less rfl
      | false => exact h
  | @cons e e' es es' first _ ih =>
    rw [boolScan] at h
    rw [boolScan, if_neg (by rw [first.isUnknown]; exact Bool.false_ne_true)]
    cases state : e.isUnknown with
    | true =>
      rw [if_pos state] at h
      have decided := eq_stop_of_sawUnknown h
      subst decided
      have rest : boolScan b nullCounts saw' es' = some b := ih (fun _ => rfl) h
      rw [rest]
      split
      · split <;> rfl
      · split <;> rfl
    | false =>
      rw [if_neg (by simp [state])] at h
      rw [first.isNull state]
      split at h
      · next null =>
        rw [if_pos null]
        split at h
        · next counts => rwa [if_pos counts]
        · next passed =>
          rw [if_neg passed]
          exact ih less h
      · next present =>
        rw [if_neg present, bool?_stands first state]
        split at h
        · next decides => rwa [if_pos decides]
        · next passed =>
          rw [if_neg passed]
          exact ih less h

theorem canonical_elements {v : Value} (h : v.Canonical) : ∀ e ∈ v.elements, e.Canonical := by
  cases h with
  | sequence _ parts => exact parts
  | _ => exact nofun

theorem completes_erase {v v' : Value} (h : Completes SameTypeAndMarks v v') :
    Completes SameTypeAndMarks v.erase v'.erase :=
  h.erase fun _ _ w fit => ⟨(Value.ty_erase w).trans fit.1, Value.unmarked_erase w⟩

/-- The elements of a sequence are resolved one by one; a set puts them in order and merges those
    that are then the same. -/
theorem elements_resolve {v v' : Value} (canonical : v.Canonical) (known : v.isUnknown = false)
    (h : Completes SameTypeAndMarks v v') :
    ∃ es, List.Forall₂ (Completes SameTypeAndMarks) v.elements es ∧
      (v'.elements = es ∨ v.ty.isSet = true ∧ v'.elements = Value.normalize es) := by
  cases h with
  | null => exact ⟨[], .nil, .inl rfl⟩
  | unknown _ _ _ => cases known
  | scalar => exact ⟨[], .nil, .inl rfl⟩
  | list parts => exact ⟨_, parts, .inl rfl⟩
  | @set e es es' m parts =>
    cases canonical with
    | sequence content _ =>
      -- The elements carry no marks, before or after.
      have erased : List.Forall₂ (Completes SameTypeAndMarks) es (es'.map Value.erase) := by
        rw [List.forall₂_map_right_iff]
        refine Lists.forall₂_imp_left (fun v hv w hc => ?_) parts
        have plain := completes_erase hc
        rwa [Value.erase_eq_self ((content e rfl).unmarked v hv)] at plain
      exact ⟨_, erased, .inr ⟨rfl, rfl⟩⟩
  | tuple parts => exact ⟨_, parts, .inl rfl⟩
  | mapping _ _ => exact ⟨[], .nil, .inl rfl⟩

theorem elements_resolve_in_place {v v' : Value} (canonical : v.Canonical)
    (known : v.isUnknown = false) (h : Completes SameTypeAndMarks v v')
    (ordered : v.ty.isSet = false) :
    List.Forall₂ (Completes SameTypeAndMarks) v.elements v'.elements := by
  obtain ⟨es, parts, same | ⟨set, _⟩⟩ := elements_resolve canonical known h
  · rw [same]
    exact parts
  · rw [ordered] at set
    cases set

/-- Neither order nor repetition matters to whether an element is found. -/
theorem containsScan_normalize {v : Value} {es : List Value} {b : Bool}
    (h : containsScan v false es = some b) :
    containsScan v false (Value.normalize es) = some b := by
  cases b with
  | true =>
    rw [containsScan_iff.1] at h ⊢
    obtain ⟨e, he, yes⟩ := h
    rcases Value.standsIn_normalize he with kept | ⟨_, w, hw, same⟩
    · exact ⟨e, kept, yes⟩
    · rw [Value.equals_eq_true] at yes
      exact ⟨w, hw, Value.equals_eq_true.2 (Value.compareTo_of_same same yes)⟩
  | false =>
    rw [containsScan_iff.2] at h ⊢
    exact ⟨rfl, fun e he => h.2 e (Value.mem_normalize he)⟩

theorem eq_some_of_boolOrUnknown {answer : Option Bool}
    (known : (boolOrUnknown answer).isUnknown = false) : ∃ b, answer = some b := by
  cases answer with
  | none => cases known
  | some b => exact ⟨b, rfl⟩

section

variable {ctx : Context} {l v l' v' w : Value} {ret : Ty} (cl : l.Canonical) (cv : v.Canonical)
  (present : l.isUnknown = false) (hl : Completes SameTypeAndMarks l l')
  (hv : Completes SameTypeAndMarks v v') (known : w.isUnknown = false)

include cl cv present hl hv known

theorem containsBody_stands (h : contains.body ctx [l, v] ret = .ok w) :
    contains.body ctx [l', v'] ret = .ok w := by
  simp only [contains, containsBody, argument, List.getD_cons_zero, List.getD_cons_succ] at h ⊢
  rw [hl.ty fits_ty]
  split at h
  · cases h
  · next shape =>
    rw [if_neg shape]
    cases h
    obtain ⟨b, found⟩ := eq_some_of_boolOrUnknown known
    obtain ⟨es, parts, elements⟩ := elements_resolve cl present hl
    have stands := containsScan_stands cv (canonical_elements cl) hv parts found
    have after : containsScan v' false l'.elements = some b := by
      rcases elements with same | ⟨_, set⟩
      · rw [same]
        exact stands
      · rw [set]
        exact containsScan_normalize stands
    rw [found, after]

theorem indexBody_stands (h : index.body ctx [l, v] ret = .ok w) :
    index.body ctx [l', v'] ret = .ok w := by
  simp only [index, indexBody, argument, List.getD_cons_zero, List.getD_cons_succ] at h ⊢
  rw [hl.ty fits_ty]
  split at h
  · cases h
  · next shape =>
    rw [if_neg shape]
    have ordered : l.ty.isSet = false := by
      cases type : l.ty with
      | set e => simp [type, Ty.isList, Ty.isTuple] at shape
      | _ => rfl
    have parts := elements_resolve_in_place cl present hl ordered
    split at h
    · cases h
    · next some =>
      rw [← Lists.isEmpty_congr parts.length_eq, if_neg some]
      split at h
      · next n found =>
        rw [indexScan_stands cv (canonical_elements cl) hv parts found]
        exact h
      · cases h
        cases known
      · cases h

end

theorem matchkeysBody_of_unify {ctx : Context} {values keys search ks cs : Value} {ret common : Ty}
    (unified : Ty.unify [keys.ty, search.ty] = some common)
    (hk : Value.convert keys common = .ok ks) (hs : Value.convert search common = .ok cs) :
    matchkeysBody ctx [values, keys, search] ret =
      if values.elements.length = keys.elements.length then
        if cs.elements.isEmpty then .ok (.list ret.elementType [])
        else if !values.isWhollyKnown || !ks.isWhollyKnown then .ok (.unknownOf ret)
        else (matchingValues cs.elements (values.elements.zip ks.elements)).elim
          (.ok (.unknownOf ret)) fun kept => .ok (.list ret.elementType kept)
      else .error (.ofMessage "length of keys and values should be equal") := by
  have type : keysAndSearchsetType [values, keys, search] = .ok common :=
    unifyArguments_eq_ok.2 unified
  have keysTaken : convertAt 1 keys common = .ok ks := mapError_eq_ok.2 hk
  have searchTaken : convertAt 2 search common = .ok cs := mapError_eq_ok.2 hs
  unfold matchkeysBody
  simp only [type]
  simp only [argument, List.getD_cons_zero, List.getD_cons_succ, bind, Except.bind, keysTaken,
    searchTaken, ne_eq, ite_not]
  cases matchingValues cs.elements (values.elements.zip ks.elements) <;> rfl

theorem matchkeysBody_eq {ctx : Context} {values keys search : Value} {ret e : Ty}
    (hk : keys.ty = .list e) (hs : search.ty = .list e) :
    matchkeysBody ctx [values, keys, search] ret =
      if values.elements.length = keys.elements.length then
        if search.elements.isEmpty then .ok (.list ret.elementType [])
        else if !values.isWhollyKnown || !keys.isWhollyKnown then .ok (.unknownOf ret)
        else (matchingValues search.elements (values.elements.zip keys.elements)).elim
          (.ok (.unknownOf ret)) fun kept => .ok (.list ret.elementType kept)
      else .error (.ofMessage "length of keys and values should be equal") := by
  refine matchkeysBody_of_unify ?_ (Value.convert_of_same (.inr hk))
    (Value.convert_of_same (.inr hs))
  rw [hk, hs]
  exact Ty.unify_of_forall_eq (by simp) (by simp)

theorem matchkeysBody_stands {ctx : Context} {values keys search values' keys' search' w : Value}
    {ret e : Ty} (hk : keys.ty = .list e) (hs : search.ty = .list e) (ck : keys.Canonical)
    (cs : search.Canonical) (knownKeys : keys.isUnknown = false)
    (knownSearch : search.isUnknown = false) (rk : Completes SameTypeAndMarks keys keys')
    (rs : Completes SameTypeAndMarks search search')
    (length : values'.elements.length = values.elements.length)
    (kept : values.isWhollyKnown = true → values' = values)
    (h : matchkeysBody ctx [values, keys, search] ret = .ok w) (known : w.isUnknown = false) :
    matchkeysBody ctx [values', keys', search'] ret = .ok w := by
  have keyParts := elements_resolve_in_place ck knownKeys rk (by rw [hk]; rfl)
  have searchParts := elements_resolve_in_place cs knownSearch rs (by rw [hs]; rfl)
  rw [matchkeysBody_eq hk hs] at h
  rw [matchkeysBody_eq ((rk.ty fits_ty).trans hk) ((rs.ty fits_ty).trans hs), length,
    ← keyParts.length_eq]
  split at h
  · next fit =>
    rw [if_pos fit]
    rw [← Lists.isEmpty_congr searchParts.length_eq]
    split at h
    · next none => rwa [if_pos none]
    · next some =>
      rw [if_neg some]
      split at h
      · cases h
        cases known
      · next whole =>
        simp only [Bool.or_eq_true, Bool.not_eq_true', not_or, Bool.not_eq_false] at whole
        have sameKeys : keys' = keys := rk.eq_of_isWhollyKnown ck whole.2
        rw [kept whole.1, sameKeys, if_neg (by simp [whole.1, whole.2])]
        cases found : matchingValues search.elements (values.elements.zip keys.elements) with
        | none =>
          rw [found] at h
          cases h
          cases known
        | some kept =>
          rw [found] at h
          rw [sameKeys] at keyParts
          rw [matchingValues_stands (canonical_elements cs) (canonical_elements ck) searchParts
            keyParts found]
          exact h
  · cases h

section

variable {ctx : Context} {f : Function} {args args' : List Value} {v : Value}
  (strict : refusesUnknowns f = true) (plain : f.everyParam (fun p => !p.allow.marked) = true)
  (known : v.isUnknown = false)

include strict plain known

theorem pair_stands {t : Ty} (any : f.everyParam (·.ty.isDynamic) = true)
    (two : f.params.length = 2) (rest : f.varParam = none) (rule : f.rule = .fixed t)
    (body : ∀ {l v l' v' w : Value} {ret : Ty}, l.Canonical → v.Canonical → l.isUnknown = false →
      Completes SameTypeAndMarks l l' → Completes SameTypeAndMarks v v' → w.isUnknown = false →
      f.body ctx [l, v] ret = .ok w → f.body ctx [l', v'] ret = .ok w)
    (canonical : ∀ a ∈ args, a.Canonical)
    (completed : List.Forall₂ (Completes SameTypeAndMarks) args args')
    (h : f.call ctx args = .ok v) : f.call ctx args' = .ok v := by
  obtain ⟨_, _, arity, _⟩ := Function.run_of_known h known
  have count : args.length = 2 := by simpa [Function.arityFault?, two, rest] using arity
  obtain ⟨l, x, rfl⟩ := List.length_eq_two.1 count
  obtain ⟨cl, cx⟩ : l.Canonical ∧ x.Canonical := by simpa using canonical
  refine Function.call_stands strict completed h known (fun j a' p _ hp => ?_)
    fun q q' hq hq' settled settled' complete => ⟨?_, fun ret w hw state => ?_⟩
  · have open_ : p.ty = .dynamic := Ty.isDynamic_iff.1 (Function.check_of_everyParam any hp)
    exact ⟨_, Value.convert_of_same (.inl open_)⟩
  · rw [resolves_of_fixed rule, resolves_of_fixed rule]
  · have present := hq.known_of_strict strict settled complete l (by simp)
    rw [hq.args_eq_erase any plain settled] at hw
    rw [hq'.args_eq_erase any plain settled']
    cases completed with
    | cons first later =>
      cases later with
      | cons second none =>
        cases none
        refine body cl.erase cx.erase ?_ (completes_erase first) (completes_erase second) state hw
        rwa [Value.isUnknown_erase]

end

theorem boolList_stands {ctx : Context} {name : String} {stop nullCounts : Bool} {l l' v : Value}
    (type : l.ty = .list .bool) (canonical : l.Canonical) (hl : Completes SameTypeAndMarks l l')
    (known : v.isUnknown = false) (h : (boolList name stop nullCounts).call ctx [l] = .ok v) :
    (boolList name stop nullCounts).call ctx [l'] = .ok v := by
  have type' : l'.ty = .list .bool := (hl.ty fits_ty).trans type
  refine Function.call_stands rfl (.cons hl .nil) h known (fun j a' p ha hp => ?_)
    fun q q' hq hq' settled settled' complete => ⟨rfl, fun ret w hw state => ?_⟩
  · cases j with
    | zero =>
      cases ha
      cases hp
      exact ⟨_, Value.convert_of_same (.inr ((Param.ty_strip _ _).trans type'))⟩
    | succ j => cases ha
  · have fixed : ∀ {a : Value}, a.ty = .list .bool →
        Value.convert a.erase (.list .bool) = .ok a.erase :=
      fun ha => Value.convert_of_same (.inr ((Value.ty_erase _).trans ha))
    have before := hq.getElem?_of_fixed settled (i := 0) rfl rfl rfl (fixed type)
    have after := hq'.getElem?_of_fixed settled' (i := 0) rfl rfl rfl (fixed type')
    have present := hq.known_of_strict rfl settled complete l (by simp)
    simp only [boolList, argument, List.getD_eq_getElem?_getD, before, Option.getD_some] at hw
    simp only [boolList, argument, List.getD_eq_getElem?_getD, after, Option.getD_some]
    cases hw
    obtain ⟨b, found⟩ := eq_some_of_boolOrUnknown state
    have ordered : l.erase.ty.isSet = false := by
      rw [Value.ty_erase, type]
      rfl
    have parts := elements_resolve_in_place canonical.erase
      ((Value.isUnknown_erase l).trans present) (completes_erase hl) ordered
    rw [found, boolScan_stands parts id found]

/-- The values still make a list of as many elements as before. -/
def StillLists (values values' : Value) : Prop :=
  ∀ w, Value.convert values (.list .dynamic) = .ok w → ∃ w',
    Value.convert values' (.list .dynamic) = .ok w' ∧ w'.elements.length = w.elements.length

theorem StillLists.erase {values values' : Value} (h : StillLists values values') :
    StillLists values.erase values'.erase := by
  intro w hw
  rw [Value.convert_erase] at hw
  cases hv : Value.convert values (.list .dynamic) with
  | error e =>
    rw [hv] at hw
    cases hw
  | ok u =>
    rw [hv] at hw
    cases hw
    obtain ⟨u', hu', len⟩ := h u hv
    refine ⟨u'.erase, ?_, by simpa using len⟩
    rw [Value.convert_erase, hu']
    rfl

theorem convert_list {v : Value} {e : Ty} (type : v.ty = .list e) (wf : v.WellFormed)
    (canonical : v.Canonical) : Value.convert v (.list .dynamic) = .ok v := by
  have typed : Ty.Matches v.ty (.list .dynamic) := type ▸ ⟨e, rfl, trivial⟩
  have target : (Ty.list .dynamic).Canonical := trivial
  obtain ⟨w, hw, same⟩ := Value.fixed_of_matches wf target typed
  rw [hw, same canonical]

/-- Lists stay of their length; only sets lose elements. -/
theorem stillLists_of_list {v v' : Value} {e : Ty} (type : v.ty = .list e) (wf : v.WellFormed)
    (canonical : v.Canonical) (wf' : v'.WellFormed) (canonical' : v'.Canonical)
    (known : v.isUnknown = false) (h : Completes SameTypeAndMarks v v') : StillLists v v' := by
  intro w hw
  rw [convert_list type wf canonical] at hw
  cases hw
  refine ⟨v', convert_list ((h.ty fits_ty).trans type) wf' canonical', ?_⟩
  exact (elements_resolve_in_place canonical known h (by rw [type]; rfl)).length_eq.symm

theorem matchkeys_sees {values keys search : Value} {q : Prepared}
    (hq : matchkeys.Prepares 0 [values, keys, search] q) (settled : q.deferred = false)
    (hk : Value.convert keys.erase (.list .dynamic) = .ok keys.erase)
    (hs : Value.convert search.erase (.list .dynamic) = .ok search.erase) :
    ∃ w, Value.convert values.erase (.list .dynamic) = .ok w ∧
      q.args = [w, keys.erase, search.erase] := by
  have three : q.args.length = 3 := hq.length_eq
  obtain ⟨w, k, s, seen⟩ := List.length_eq_three.1 three
  have first : q.args[0]? = some w := by rw [seen]; rfl
  obtain ⟨p, hp, _, _, hw⟩ := hq.converted settled (j := 0) rfl first
  cases hp
  have second := hq.getElem?_of_fixed settled (i := 1) rfl rfl rfl hk
  have third := hq.getElem?_of_fixed settled (i := 2) rfl rfl rfl hs
  rw [seen] at second third
  cases second
  cases third
  exact ⟨w, hw, seen⟩

section

variable {ctx : Context} {values keys search values' keys' search' v : Value} {e : Ty}
  (hk : keys.ty = .list e) (hs : search.ty = .list e)
  (built : ∀ a ∈ [values, keys, search], a.WellFormed)
  (canonical : ∀ a ∈ [values, keys, search], a.Canonical)
  (built' : ∀ a ∈ [values', keys', search'], a.WellFormed)
  (canonical' : ∀ a ∈ [values', keys', search'], a.Canonical)
  (completed : List.Forall₂ (Completes SameTypeAndMarks) [values, keys, search]
    [values', keys', search'])
  (still : StillLists values values')

include hk hs built canonical built' canonical' completed still

theorem matchkeys_stands (known : v.isUnknown = false)
    (h : matchkeys.call ctx [values, keys, search] = .ok v) :
    matchkeys.call ctx [values', keys', search'] = .ok v := by
  have taken : ∀ a : Value, a.ty = .list e → a.WellFormed → a.Canonical →
      Value.convert a.erase (.list .dynamic) = .ok a.erase :=
    fun a type wf canonical => convert_list ((Value.ty_erase a).trans type) wf.erase canonical.erase
  obtain ⟨_, hks, hss⟩ : Completes SameTypeAndMarks values values' ∧
      Completes SameTypeAndMarks keys keys' ∧ Completes SameTypeAndMarks search search' := by
    simpa using completed
  have hk' : keys'.ty = .list e := (hks.ty fits_ty).trans hk
  have hs' : search'.ty = .list e := (hss.ty fits_ty).trans hs
  have keysTaken := taken keys hk (built _ (by simp)) (canonical _ (by simp))
  have keysTaken' := taken keys' hk' (built' _ (by simp)) (canonical' _ (by simp))
  have searchTaken := taken search hs (built _ (by simp)) (canonical _ (by simp))
  have searchTaken' := taken search' hs' (built' _ (by simp)) (canonical' _ (by simp))
  obtain ⟨p, _, _, prepares, settled, _⟩ := Function.run_of_known h known
  obtain ⟨w, hw, _⟩ := matchkeys_sees prepares settled keysTaken searchTaken
  obtain ⟨w', hw', len⟩ := still.erase w hw
  refine Function.call_stands rfl completed h known (fun j a' p ha hp => ?_)
    fun q q' hq hq' settled settled' complete => ?_
  · match j with
    | 0 =>
      cases ha
      cases hp
      exact ⟨w', hw'⟩
    | 1 =>
      cases ha
      cases hp
      exact ⟨keys'.erase, keysTaken'⟩
    | 2 =>
      cases ha
      cases hp
      exact ⟨search'.erase, searchTaken'⟩
    | j + 3 => cases ha
  · have sameType : List.Forall₂ (Completes Value.SameType) [values, keys, search]
        [values', keys', search'] :=
      Lists.forall₂_imp_left (fun _ _ _ hc => hc.imp fits_ty) completed
    have resolves :=
      Function.resolves_of_prepares sameType rfl built canonical hq hq' settled settled'
    have present := hq.known_of_strict rfl settled complete
    obtain ⟨u, hu, seen⟩ := matchkeys_sees hq settled keysTaken searchTaken
    obtain ⟨u', hu', seen'⟩ := matchkeys_sees hq' settled' keysTaken' searchTaken'
    cases hw.symm.trans hu
    cases hw'.symm.trans hu'
    refine ⟨congrArg (·.mapError matchkeys.annotate) (matchkeysType_readsTypes resolves.types),
      fun ret x hx state => ?_⟩
    have kept : w.isWhollyKnown = true → w' = w := by
      have places := resolves.places
      rw [seen, seen'] at places
      cases places with
      | cons first _ => exact first.kept
    rw [seen] at hx
    rw [seen']
    change matchkeysBody ctx [w', keys'.erase, search'.erase] ret = .ok x
    refine matchkeysBody_stands ((Value.ty_erase _).trans hk) ((Value.ty_erase _).trans hs)
      (canonical keys (by simp)).erase (canonical search (by simp)).erase ?_ ?_
      (completes_erase hks) (completes_erase hss) len kept hx state
    · rw [Value.isUnknown_erase]
      exact present keys (by simp)
    · rw [Value.isUnknown_erase]
      exact present search (by simp)

end

/-- The calls whose known results stand, with the arguments before and after: searches of any kind,
    `alltrue` and `anytrue` in lists of bools, and `matchkeys` with keys and candidates in lists of
    one type, while the values still make a list of as many elements. -/
inductive Scans : String → List Value → List Value → Prop
  | contains (args args' : List Value) : Scans "contains" args args'
  | index (args args' : List Value) : Scans "index" args args'
  | alltrue {l : Value} (l' : Value) (type : l.ty = .list .bool) : Scans "alltrue" [l] [l']
  | anytrue {l : Value} (l' : Value) (type : l.ty = .list .bool) : Scans "anytrue" [l] [l']
  | matchkeys {values keys search values' : Value} (keys' search' : Value) {e : Ty}
    (hk : keys.ty = .list e) (hs : search.ty = .list e) (still : StillLists values values') :
    Scans "matchkeys" [values, keys, search] [values', keys', search']

end Standard

open Standard

/-- A known result found by going through elements stands, however the unknowns among the arguments
    are resolved. -/
theorem standardTable_known_stands {ctx : Context} {name : String} {args args' : List Value}
    {v : Value} (scans : Scans name args args') (built : ∀ a ∈ args, a.WellFormed)
    (canonical : ∀ a ∈ args, a.Canonical) (built' : ∀ a ∈ args', a.WellFormed)
    (canonical' : ∀ a ∈ args', a.Canonical)
    (completed : List.Forall₂ (Completes SameTypeAndMarks) args args')
    (h : (table engine).call ctx name args = .ok v) (known : v.isUnknown = false) :
    (table engine).call ctx name args' = .ok v := by
  cases scans with
  | contains =>
    rw [standardTable_call contains rfl] at h ⊢
    exact pair_stands rfl rfl known rfl rfl rfl rfl containsBody_stands canonical completed h
  | index =>
    rw [standardTable_call index rfl] at h ⊢
    exact pair_stands rfl rfl known rfl rfl rfl rfl indexBody_stands canonical completed h
  | alltrue l' type =>
    rw [standardTable_call alltrue rfl] at h ⊢
    have hl := (List.forall₂_cons.1 completed).1
    exact boolList_stands type (canonical _ (by simp)) hl known h
  | anytrue l' type =>
    rw [standardTable_call anytrue rfl] at h ⊢
    have hl := (List.forall₂_cons.1 completed).1
    exact boolList_stands type (canonical _ (by simp)) hl known h
  | matchkeys keys' search' hk hs still =>
    rw [standardTable_call matchkeys rfl] at h ⊢
    exact matchkeys_stands hk hs built canonical built' canonical' completed still known h

def openSet : Value := .sequence (.set .string) [.string "a", .unknownOf .string] ∅

def mergedSet : Value := .sequence (.set .string) [.string "a"] ∅

theorem completes_openSet : Completes SameTypeAndMarks openSet mergedSet := by
  have parts : List.Forall₂ (Completes SameTypeAndMarks) [.string "a", .unknownOf .string]
      [.string "a", .string "a"] := .cons .scalar (.cons (.unknown rfl nofun ⟨rfl, rfl⟩) .nil)
  have built := Completes.set (e := .string) (m := ∅) parts
  exact built

theorem openSet_built : openSet.WellFormed ∧ openSet.Canonical := by
  refine ⟨.set trivial ?_ ?_, .sequence (fun e _ => ⟨?_, rfl⟩) ?_⟩
  · exact List.forall_mem_cons.2 ⟨rfl, List.forall_mem_singleton.2 rfl⟩
  · exact List.forall_mem_cons.2 ⟨.scalar, List.forall_mem_singleton.2 (.unknown trivial)⟩
  · exact List.forall_mem_cons.2 ⟨rfl, List.forall_mem_singleton.2 rfl⟩
  · exact List.forall_mem_cons.2 ⟨.scalar, List.forall_mem_singleton.2 .unknown⟩

theorem mergedSet_built : mergedSet.WellFormed ∧ mergedSet.Canonical := by
  refine ⟨.set trivial ?_ ?_, .sequence (fun e _ => ⟨?_, rfl⟩) ?_⟩
  · exact List.forall_mem_singleton.2 rfl
  · exact List.forall_mem_singleton.2 .scalar
  · exact List.forall_mem_singleton.2 rfl
  · exact List.forall_mem_singleton.2 .scalar

/-- What was found in the set is still found when its elements merge. -/
theorem contains_stands_in_merged :
    (∀ a ∈ [openSet, .string "a"], a.WellFormed) ∧ (∀ a ∈ [openSet, .string "a"], a.Canonical) ∧
      (∀ a ∈ [mergedSet, .string "a"], a.WellFormed) ∧
      (∀ a ∈ [mergedSet, .string "a"], a.Canonical) ∧
      List.Forall₂ (Completes SameTypeAndMarks) [openSet, .string "a"] [mergedSet, .string "a"] ∧
      standardTable.call {} "contains" [openSet, .string "a"] = .ok (.bool true) ∧
      standardTable.call {} "contains" [mergedSet, .string "a"] = .ok (.bool true) := by
  have built : ∀ a ∈ [openSet, .string "a"], a.WellFormed :=
    List.forall_mem_cons.2 ⟨openSet_built.1, List.forall_mem_singleton.2 .scalar⟩
  have canonical : ∀ a ∈ [openSet, .string "a"], a.Canonical :=
    List.forall_mem_cons.2 ⟨openSet_built.2, List.forall_mem_singleton.2 .scalar⟩
  have built' : ∀ a ∈ [mergedSet, .string "a"], a.WellFormed :=
    List.forall_mem_cons.2 ⟨mergedSet_built.1, List.forall_mem_singleton.2 .scalar⟩
  have canonical' : ∀ a ∈ [mergedSet, .string "a"], a.Canonical :=
    List.forall_mem_cons.2 ⟨mergedSet_built.2, List.forall_mem_singleton.2 .scalar⟩
  have completed : List.Forall₂ (Completes SameTypeAndMarks) [openSet, .string "a"]
      [mergedSet, .string "a"] := .cons completes_openSet (.cons .scalar .nil)
  have before : standardTable.call {} "contains" [openSet, .string "a"] = .ok (.bool true) := by
    rw [standardTable_call contains rfl]
    rfl
  have after := standardTable_known_stands (.contains _ _) built canonical built' canonical'
    completed before rfl
  exact ⟨built, canonical, built', canonical', completed, before, after⟩

def keyedOpen : List Value := [openSet, .stringList ["a", "b"], .stringList []]

def keyedMerged : List Value := [mergedSet, .stringList ["a", "b"], .stringList []]

/-- When the values merge there is a key too many for them, and the call fails. -/
theorem matchkeys_fails_for_merged :
    (∀ a ∈ keyedOpen, a.WellFormed ∧ a.Canonical) ∧
      (∀ a ∈ keyedMerged, a.WellFormed ∧ a.Canonical) ∧
      List.Forall₂ (Completes SameTypeAndMarks) keyedOpen keyedMerged ∧
      (∃ v, standardTable.call {} "matchkeys" keyedOpen = .ok v ∧ v.isUnknown = false) ∧
      (∃ e, standardTable.call {} "matchkeys" keyedMerged = .error e) ∧
      ¬ StillLists openSet mergedSet := by
  have strings : ∀ ss : List String,
      (Value.stringList ss).WellFormed ∧ (Value.stringList ss).Canonical := by
    intro ss
    refine ⟨.list trivial ?_ ?_, .sequence nofun ?_⟩
    · exact List.forall_mem_map.2 fun _ _ => rfl
    · exact List.forall_mem_map.2 fun _ _ => .scalar
    · exact List.forall_mem_map.2 fun _ _ => .scalar
  have built : ∀ a ∈ keyedOpen, a.WellFormed ∧ a.Canonical :=
    List.forall_mem_cons.2 ⟨openSet_built,
      List.forall_mem_cons.2 ⟨strings _, List.forall_mem_singleton.2 (strings _)⟩⟩
  have built' : ∀ a ∈ keyedMerged, a.WellFormed ∧ a.Canonical :=
    List.forall_mem_cons.2 ⟨mergedSet_built,
      List.forall_mem_cons.2 ⟨strings _, List.forall_mem_singleton.2 (strings _)⟩⟩
  have completed : List.Forall₂ (Completes SameTypeAndMarks) keyedOpen keyedMerged :=
    .cons completes_openSet
      (.cons (.list (.cons .scalar (.cons .scalar .nil))) (.cons (.list .nil) .nil))
  refine ⟨built, built', completed, ?_, ?_, ?_⟩
  · have known : (matchkeys.call {} keyedOpen).toOption.map Value.isUnknown = some false := by
      decide +kernel
    rw [standardTable_call matchkeys rfl]
    cases h : matchkeys.call {} keyedOpen with
    | error e =>
      rw [h] at known
      cases known
    | ok v =>
      rw [h] at known
      exact ⟨v, rfl, Option.some.inj known⟩
  · have fails : (matchkeys.call {} keyedMerged).isOk = false := by decide +kernel
    rw [standardTable_call matchkeys rfl]
    cases h : matchkeys.call {} keyedMerged with
    | error e => exact ⟨e, rfl⟩
    | ok v =>
      rw [h] at fails
      cases fails
  · intro still
    have before : Value.convert openSet (.list .dynamic) =
        .ok (.list .string [.string "a", .unknownOf .string]) := rfl
    have after : Value.convert mergedSet (.list .dynamic) = .ok (.list .string [.string "a"]) := rfl
    obtain ⟨w, hw, len⟩ := still _ before
    cases after.symm.trans hw
    cases len

end MarkedValues
