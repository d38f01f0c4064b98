import MarkedValues.Proofs.Call.Delivery
import MarkedValues.Proofs.Call.Table
import MarkedValues.Proofs.Standard.MarkFlow
import MarkedValues.Proofs.Standard.Scanning
import MarkedValues.Proofs.Ty.Absorption
import MarkedValues.Proofs.Value.CommonTypes
import MarkedValues.Proofs.Value.KeptMarks
import MarkedValues.Proofs.Value.Knowledge

/-!
Matching keys with candidates. Both are brought to lists of a common type, which does not depend on
how the candidates are listed, and a key is kept if some candidate is equal to it. Only a candidate
that is not known yet stops a scan before its end, so the order of the candidates may decide whether
an answer is known, but never what it is.
-/
namespace MarkedValues

open Outcomes

variable {engine : Regex.Engine}

theorem Ty.list_of_conversionType {s u e : Ty} (h : conversionType s (.list e) = some u) :
    ∃ d, u = .list d := by
  obtain ⟨d, ⟨_, rfl⟩ | ⟨wrong, _⟩, _⟩ := conversionType_sequence (.inl rfl) h
  · exact ⟨d, rfl⟩
  · cases wrong

theorem Ty.list_of_unify {a b t : Ty} (h : Ty.unify [.list a, .list b] = some t) :
    ∃ d, t = .list d := by
  have closed : [list a, list b].any isDynamic = false := rfl
  have kinds : unifyKinds (.list a) [.list a, .list b] = (unifyOrDynamic [a, b]).map .list := rfl
  rw [unify_eq List.mem_cons_self, unifyFrom, closed, if_neg Bool.false_ne_true, kinds] at h
  split at h
  · cases h
    exact ⟨a, rfl⟩
  · obtain ⟨d, _, rfl⟩ := Option.map_eq_some_iff.1 h
    exact ⟨d, rfl⟩

namespace Value

theorem list_of_convert {v w : Value} {e : Ty} (present : v.isNull = false)
    (known : v.isUnknown = false) (h : convert v (.list e) = .ok w) :
    ∃ d ws m, w = .sequence (.list d) ws m ∧ ws.length = v.elements.length := by
  cases converts_of_convert h with
  | same same =>
    rcases same with dynamic | type
    · cases dynamic
    · obtain ⟨k, es, m, rfl⟩ := exists_sequence_of_ty present known (by rw [type]; rfl)
      cases k <;> cases type
      exact ⟨e, es, m, rfl, rfl⟩
  | null _ => cases present
  | unknown _ => cases known
  | @scalar s _ _ _ _ hu _ =>
    obtain ⟨d, rfl⟩ := Ty.list_of_conversionType hu
    cases s <;> cases hu
  | list _ parts => exact ⟨_, _, _, rfl, parts.length_eq.symm⟩
  | set hu _ | tuple hu _ | map hu _ | object hu _ _ =>
    obtain ⟨d, wrong⟩ := Ty.list_of_conversionType hu
    cases wrong

/-- Two sequences of one kind, so two lists of one type or two tuples, with the same elements up to
    order and repetition and the same marks of their own. -/
inductive SameElements : Value → Value → Prop
  | intro {k : SequenceKind} {es es' : List Value} {m : MarkSet} : (∀ v, v ∈ es ↔ v ∈ es') →
    SameElements (.sequence k es m) (.sequence k es' m)

namespace SameElements

variable {s s' : Value}

theorem symm (h : SameElements s s') : SameElements s' s := by
  obtain ⟨same⟩ := h
  exact ⟨fun v => (same v).symm⟩

theorem mem_iff (h : SameElements s s') : ∀ v, v ∈ s.elements ↔ v ∈ s'.elements := by
  obtain ⟨same⟩ := h
  exact same

theorem present (h : SameElements s s') : s.isNull = false := by
  obtain ⟨_⟩ := h
  rfl

theorem known (h : SameElements s s') : s.isUnknown = false := by
  obtain ⟨_⟩ := h
  rfl

theorem erase (h : SameElements s s') : SameElements s.erase s'.erase := by
  obtain ⟨same⟩ := h
  simp only [Value.erase, eraseAll_eq_map]
  exact ⟨fun v => by simp only [List.mem_map, same]⟩

theorem allMarks (h : SameElements s s') : s.allMarks = s'.allMarks := by
  obtain ⟨same⟩ := h
  simp only [Value.allMarks]
  congr 1
  exact MarkSet.ext fun x => by simp only [mem_marksOfAll, same]

theorem isWhollyKnown (h : SameElements s s') (whole : s.isWhollyKnown = true) :
    s'.isWhollyKnown = true := by
  obtain ⟨same⟩ := h
  exact isWhollyKnown_sequence.2 fun v hv => isWhollyKnown_sequence.1 whole v ((same v).2 hv)

theorem conversionType (h : SameElements s s') (e : Ty) :
    Ty.conversionType s.ty (.list e) = Ty.conversionType s'.ty (.list e) := by
  obtain @⟨k, es, es', m, same⟩ := h
  cases k with
  | list d => rfl
  | set d => rfl
  | tuple =>
    have types : ∀ t, t ∈ es.map Value.ty ↔ t ∈ es'.map Value.ty := by
      simp only [List.mem_map, same, implies_true]
    have common := Ty.unifyOrDynamic_congr types (Ty.unify_congr types)
    have target : Ty.elementTarget (es.map Value.ty) e (fun f => Ty.conversionType f e) =
        Ty.elementTarget (es'.map Value.ty) e fun f => Ty.conversionType f e := by
      rw [Ty.elementTarget, Ty.elementTarget, common, Ty.all_congr types]
    simp only [Value.ty, tyAll_eq_map]
    exact congrArg (Option.map Ty.list) target

theorem convert {e : Ty} {w : Value} (h : SameElements s s')
    (hw : Value.convert s (.list e) = .ok w) :
    ∃ w', Value.convert s' (.list e) = .ok w' ∧ SameElements w w' ∧ w'.ty = w.ty := by
  have target := h.conversionType e
  obtain @⟨k, es, es', m, same⟩ := h
  by_cases list : k = .list e
  · subst list
    have kept (es : List Value) : Value.convert (.sequence (.list e) es m) (.list e) =
        .ok (.sequence (.list e) es m) := convert_of_same (.inr rfl)
    rw [kept] at hw
    cases hw
    exact ⟨_, kept es', ⟨same⟩, rfl⟩
  · have differ (es : List Value) :
        ¬ (Ty.list e = .dynamic ∨ Value.ty (.sequence k es m) = .list e) := by
      rintro (dynamic | type)
      · cases dynamic
      · cases k <;> cases type
        exact list rfl
    rw [convert_of_ne (differ es)] at hw
    rw [convert_of_ne (differ es'), ← target]
    cases hu : Ty.conversionType (Value.ty (.sequence k es m)) (.list e) with
    | none =>
      rw [hu] at hw
      cases hw
    | some u =>
      obtain ⟨d, rfl⟩ := Ty.list_of_conversionType hu
      rw [hu] at hw
      simp only [convertTo, bind_eq_ok] at hw
      obtain ⟨ws, converted, heq⟩ := hw
      cases heq
      have parts := forall₂_of_convertAll converted
      obtain ⟨ws', converted'⟩ := @exists_convertAll es' d 0 fun v hv => by
        obtain ⟨w, _, hvw⟩ := Lists.exists_of_mem_right parts.flip ((same v).2 hv)
        exact ⟨w, hvw⟩
      have parts' := forall₂_of_convertAll converted'
      have unique (v w w' : Value) (hw : Value.convert v d = .ok w)
          (hw' : Value.convert v d = .ok w') : w = w' := by
        cases hw.symm.trans hw'
        rfl
      have members (w : Value) : w ∈ ws ↔ w ∈ ws' :=
        ⟨Lists.mem_of_forall₂ unique parts parts' (fun v => (same v).1) w,
          Lists.mem_of_forall₂ unique parts' parts (fun v => (same v).2) w⟩
      refine ⟨(Value.list d ws').withMarks m, ?_, ⟨members⟩, rfl⟩
      simp only [convertTo, converted', bind, Except.bind]

end SameElements

end Value

namespace Standard

open Value (SameElements)

/-- Some candidate is known to be equal to the key. -/
def occurs (candidates : List Value) (key : Value) : Bool :=
  candidates.any fun c => (key.equals c).bool? == some true

def chosen (candidates : List Value) (pairs : List (Value × Value)) : List Value :=
  (pairs.filter fun pair => occurs candidates pair.2).map Prod.fst

theorem occurs_cons_of_bool? {key c : Value} {cs : List Value} {b : Bool}
    (h : (key.equals c).bool? = some b) : occurs (c :: cs) key = (b || occurs cs key) := by
  rw [occurs, List.any_cons, h]
  cases b <;> rfl

theorem keyScan_eq_some {key : Value} {cs : List Value} {found : Bool}
    (h : keyScan key cs = some found) : found = occurs cs key := by
  induction cs with
  | nil =>
    cases h
    rfl
  | cons c cs ih =>
    rw [keyScan] at h
    split at h
    · next yes =>
      cases h
      rw [occurs_cons_of_bool? yes, Bool.true_or]
    · next no =>
      rw [occurs_cons_of_bool? no, Bool.false_or]
      exact ih h
    · cases h

theorem exists_keyScan {key : Value} (whole : key.isWhollyKnown = true) {cs : List Value}
    (each : ∀ c ∈ cs, c.isWhollyKnown = true) : ∃ found, keyScan key cs = some found := by
  induction cs with
  | nil => exact ⟨false, rfl⟩
  | cons c cs ih =>
    obtain ⟨here, behind⟩ := List.forall_mem_cons.1 each
    obtain ⟨found, later⟩ := ih behind
    cases answer : key.compareTo c with
    | yes => exact ⟨true, by rw [keyScan, Value.equals_eq_true.2 answer]⟩
    | no => exact ⟨found, by rw [keyScan, Value.equals_eq_false.2 answer, later]⟩
    | undecided => exact absurd answer (Value.compareTo_ne_undecided whole here)

theorem matchingValues_eq_some {cs kept : List Value} {pairs : List (Value × Value)}
    (h : matchingValues cs pairs = some kept) : kept = chosen cs pairs := by
  induction pairs generalizing kept with
  | nil =>
    cases h
    rfl
  | cons pair pairs ih =>
    obtain ⟨v, key⟩ := pair
    rw [matchingValues] at h
    obtain ⟨found, scan, h⟩ := Option.bind_eq_some_iff.1 h
    obtain ⟨others, later, h⟩ := Option.bind_eq_some_iff.1 h
    cases h
    rw [ih later, keyScan_eq_some scan, chosen, chosen, List.filter_cons]
    cases occurs cs key <;> rfl

theorem matchingValues_of_whole {cs : List Value} {pairs : List (Value × Value)}
    (candidates : ∀ c ∈ cs, c.isWhollyKnown = true)
    (keys : ∀ pair ∈ pairs, pair.2.isWhollyKnown = true) :
    matchingValues cs pairs = some (chosen cs pairs) := by
  have ends : ∃ kept, matchingValues cs pairs = some kept := by
    induction pairs with
    | nil => exact ⟨[], rfl⟩
    | cons pair pairs ih =>
      obtain ⟨here, behind⟩ := List.forall_mem_cons.1 keys
      obtain ⟨found, scan⟩ := exists_keyScan here candidates
      obtain ⟨others, later⟩ := ih behind
      exact ⟨_, by rw [matchingValues, scan, later]; rfl⟩
  obtain ⟨kept, h⟩ := ends
  rw [h, matchingValues_eq_some h]

theorem chosen_congr {cs cs' : List Value} (same : ∀ c, c ∈ cs ↔ c ∈ cs')
    (pairs : List (Value × Value)) : chosen cs pairs = chosen cs' pairs := by
  have alike (key : Value) : occurs cs key = occurs cs' key := by
    rw [Bool.eq_iff_iff]
    simp only [occurs, List.any_eq_true, same]
  simp only [chosen, alike]

theorem matchingValues_nil (pairs : List (Value × Value)) : matchingValues [] pairs = some [] := by
  induction pairs with
  | nil => rfl
  | cons pair pairs ih =>
    rw [matchingValues, ih]
    rfl

structure Taken (a w : Value) : Prop where
  present : a.isNull = false
  converted : Value.convert a (.list .dynamic) = .ok w

/-- The values are taken as the list `vs`, keys and candidates as lists that are brought to their
    common type as `ks` and `cs`; every value has a key. -/
structure Compared (values keys search vs ks cs : Value) : Prop where
  taken : Taken values vs
  unified : ∃ k s common, (Taken keys k ∧ Taken search s) ∧ Ty.unify [k.ty, s.ty] = some common ∧
    Value.convert k common = .ok ks ∧ Value.convert s common = .ok cs
  paired : vs.elements.length = ks.elements.length

theorem Taken.ty {a w : Value} (h : Taken a w) (known : a.isUnknown = false) :
    ∃ e, w.ty = .list e := by
  obtain ⟨e, es, m, rfl, _⟩ := Value.list_of_convert h.present known h.converted
  exact ⟨e, rfl⟩

theorem list_of_unified {keys search k s : Value} {common : Ty} (hk : Taken keys k)
    (hs : Taken search s) (knownKeys : keys.isUnknown = false) (knownSearch : search.isUnknown = false)
    (unified : Ty.unify [k.ty, s.ty] = some common) : ∃ d, common = .list d := by
  obtain ⟨a, typeKeys⟩ := hk.ty knownKeys
  obtain ⟨b, typeSearch⟩ := hs.ty knownSearch
  rw [typeKeys, typeSearch] at unified
  exact Ty.list_of_unify unified

theorem Taken.length_eq {a w u : Value} {t : Ty} (h : Taken a w) (known : a.isUnknown = false)
    (list : ∃ d, t = .list d) (hu : Value.convert w t = .ok u) :
    u.elements.length = w.elements.length := by
  obtain ⟨d, rfl⟩ := list
  have presentList : w.isNull = false := (Value.isNull_convert h.converted).trans h.present
  have knownList : w.isUnknown = false := (Value.isUnknown_convert h.converted).trans known
  obtain ⟨e, ws, n, rfl, length⟩ := Value.list_of_convert presentList knownList hu
  exact length

theorem Taken.isWhollyKnown {a w : Value} (h : Taken a w) (whole : a.isWhollyKnown = true) :
    w.isWhollyKnown = true :=
  Value.isWhollyKnown_convert whole h.converted

theorem Taken.handsOver {a w : Value} (h : Taken a w) (clean : a.Unmarked)
    (known : a.isUnknown = false) (name : String) :
    Param.HandsOver { name := name, ty := .list .dynamic } a w :=
  Param.handsOver_of_convert clean h.present known h.converted

theorem taken_of_handsOver {a w : Value} {name : String}
    (h : Param.HandsOver { name := name, ty := .list .dynamic } a w) : Taken a w :=
  ⟨h.present rfl, h.converted⟩

def answer (t : Ty) : Option (List Value) → Value
  | some kept => .list t.elementType kept
  | none => .unknown t true ∅

theorem finish_answer {ret e : Ty} (type : ret = .list e) (kept : Option (List Value)) :
    matchkeys.finish ret ∅ (.ok (kept.elim (.unknownOf ret) (.list ret.elementType))) =
      .ok (answer ret kept) := by
  subst type
  cases kept with
  | some kept => exact Function.finish_of_conform (Function.conform_of_ty rfl rfl rfl)
  | none =>
    have kept : Value.convert (.unknownOf (.list e)) (.list e) = .ok (.unknownOf (.list e)) :=
      Value.convert_of_same (.inr rfl)
    have conform : matchkeys.conform (.unknownOf (.list e)) (.list e) =
        .ok (.unknown (.list e) true ∅) := by
      rw [Function.conform, kept]
      rfl
    simp only [Option.elim_none, Function.finish, mapError_ok, bind, Except.bind, conform,
      Value.withMarks_empty]
    rfl

section

variable (ctx : Context) {vs k s ks cs w : Value} {ret common : Ty}

/-- Without unknowns among values and keys only a scan can leave the answer open. -/
theorem matchkeysBody_of_whole (unified : Ty.unify [k.ty, s.ty] = some common)
    (hk : Value.convert k common = .ok ks) (hs : Value.convert s common = .ok cs)
    (paired : vs.elements.length = k.elements.length) (wholeValues : vs.isWhollyKnown = true)
    (wholeKeys : ks.isWhollyKnown = true) :
    matchkeysBody ctx [vs, k, s] ret =
      .ok ((matchingValues cs.elements (vs.elements.zip ks.elements)).elim (.unknownOf ret)
        (.list ret.elementType)) := by
  rw [matchkeysBody_of_unify unified hk hs, if_pos paired, wholeValues, wholeKeys]
  cases candidates : cs.elements with
  | nil =>
    rw [matchingValues_nil]
    rfl
  | cons c rest => cases matchingValues (c :: rest) (vs.elements.zip ks.elements) <;> rfl

theorem compared_of_matchkeysBody (h : matchkeysBody ctx [vs, k, s] ret = .ok w) :
    vs.elements.length = k.elements.length ∧ ∃ ks cs common,
      Ty.unify [k.ty, s.ty] = some common ∧ Value.convert k common = .ok ks ∧
        Value.convert s common = .ok cs := by
  unfold matchkeysBody at h
  dsimp only at h
  split at h
  · cases h
  · next paired =>
    obtain ⟨common, unified, h⟩ := bind_eq_ok.1 h
    obtain ⟨ks, hk, h⟩ := bind_eq_ok.1 h
    obtain ⟨cs, hs, _⟩ := bind_eq_ok.1 h
    exact ⟨not_not.1 paired, ks, cs, common, unifyArguments_eq_ok.1 unified, mapError_eq_ok.1 hk,
      mapError_eq_ok.1 hs⟩

end

theorem run_of_unify (ctx : Context) {vs k s ks cs : Value} {common e : Ty} (type : vs.ty = .list e)
    (unified : Ty.unify [k.ty, s.ty] = some common) (hk : Value.convert k common = .ok ks)
    (hs : Value.convert s common = .ok cs) (paired : vs.elements.length = k.elements.length)
    (wholeValues : vs.isWhollyKnown = true) (wholeKeys : ks.isWhollyKnown = true) :
    (matchkeys.resolveType [vs, k, s] >>= fun ret =>
        matchkeys.finish ret ∅ (matchkeys.body ctx [vs, k, s] ret)) =
      .ok (answer vs.ty (matchingValues cs.elements (vs.elements.zip ks.elements))) := by
  have rule : (keysAndSearchsetType [vs, k, s] >>= fun _ => .ok (argument [vs, k, s] 0).ty) =
      .ok vs.ty := by
    rw [show keysAndSearchsetType [vs, k, s] = .ok common from unifyArguments_eq_ok.2 unified]
    rfl
  have body : matchkeys.body ctx [vs, k, s] vs.ty = _ :=
    matchkeysBody_of_whole ctx unified hk hs paired wholeValues wholeKeys
  rw [Function.resolveType_of_rule (f := matchkeys) rfl rule]
  simp only [bind, Except.bind, body]
  exact finish_answer type _

section

variable {values keys search v : Value} (wholeValues : values.isWhollyKnown = true)
  (wholeKeys : keys.isWhollyKnown = true) (known : search.isUnknown = false)
  (cleanValues : values.Unmarked) (cleanKeys : keys.Unmarked) (clean : search.Unmarked)

include wholeValues wholeKeys known cleanValues cleanKeys clean

theorem call_eq_ok_iff_run (ctx : Context) :
    (table engine).call ctx "matchkeys" [values, keys, search] = .ok v ↔
      ∃ vs k s, (Taken values vs ∧ Taken keys k ∧ Taken search s) ∧
        (matchkeys.resolveType [vs, k, s] >>= fun ret =>
          matchkeys.finish ret ∅ (matchkeys.body ctx [vs, k, s] ret)) = .ok v := by
  have refused : ∀ i p, matchkeys.paramFor i = some p → p.allow.null = false := by
    intro i p hp
    have each : matchkeys.everyParam (fun p => !p.allow.null) = true := rfl
    simpa using Function.check_of_everyParam each hp
  have knownValues := Value.Completes.isUnknown_of_isWhollyKnown wholeValues
  have knownKeys := Value.Completes.isUnknown_of_isWhollyKnown wholeKeys
  rw [standardTable_call matchkeys rfl, Function.call_eq_ok_iff_delivers refused
    (by simp [cleanValues, cleanKeys, clean]) (by simp [knownValues, knownKeys, known])]
  constructor
  · rintro ⟨_, seen, delivers, runs⟩
    obtain ⟨vs, _, rfl, first, delivers⟩ := delivers.uncons rfl
    obtain ⟨k, _, rfl, second, delivers⟩ := delivers.uncons rfl
    obtain ⟨s, _, rfl, third, delivers⟩ := delivers.uncons rfl
    cases delivers
    exact ⟨vs, k, s, ⟨taken_of_handsOver first, taken_of_handsOver second,
      taken_of_handsOver third⟩, runs⟩
  · rintro ⟨vs, k, s, ⟨first, second, third⟩, runs⟩
    refine ⟨rfl, [vs, k, s], ?_, runs⟩
    exact .cons rfl (first.handsOver cleanValues knownValues _)
      (.cons rfl (second.handsOver cleanKeys knownKeys _)
        (.cons rfl (third.handsOver clean known _) (.nil 3)))

theorem call_matchkeys (ctx : Context) :
    (table engine).call ctx "matchkeys" [values, keys, search] = .ok v ↔
      ∃ vs ks cs, Compared values keys search vs ks cs ∧
        v = answer vs.ty (matchingValues cs.elements (vs.elements.zip ks.elements)) := by
  have knownValues := Value.Completes.isUnknown_of_isWhollyKnown wholeValues
  have knownKeys := Value.Completes.isUnknown_of_isWhollyKnown wholeKeys
  rw [call_eq_ok_iff_run wholeValues wholeKeys known cleanValues cleanKeys clean]
  constructor
  · rintro ⟨vs, k, s, ⟨hv, hk, hs⟩, runs⟩
    obtain ⟨ret, type, done⟩ := bind_eq_ok.1 runs
    obtain ⟨_, _, heq⟩ := bind_eq_ok.1 (mapError_eq_ok.1 type)
    cases heq
    obtain ⟨w, _, body, _, _⟩ := Function.finish_eq_ok done
    obtain ⟨paired, ks, cs, common, unified, hks, hcs⟩ := compared_of_matchkeysBody ctx body
    have list := list_of_unified hk hs knownKeys known unified
    have length := hk.length_eq knownKeys list hks
    obtain ⟨e, type⟩ := hv.ty knownValues
    have run := run_of_unify ctx type unified hks hcs paired (hv.isWhollyKnown wholeValues)
      (Value.isWhollyKnown_convert (hk.isWhollyKnown wholeKeys) hks)
    exact ⟨vs, ks, cs, ⟨hv, ⟨k, s, common, ⟨hk, hs⟩, unified, hks, hcs⟩, paired.trans length.symm⟩,
      Except.ok.inj (runs.symm.trans run)⟩
  · rintro ⟨vs, ks, cs, ⟨hv, ⟨k, s, common, ⟨hk, hs⟩, unified, hks, hcs⟩, paired⟩, rfl⟩
    have list := list_of_unified hk hs knownKeys known unified
    have length := hk.length_eq knownKeys list hks
    obtain ⟨e, type⟩ := hv.ty knownValues
    exact ⟨vs, k, s, ⟨hv, hk, hs⟩, run_of_unify ctx type unified hks hcs (paired.trans length)
      (hv.isWhollyKnown wholeValues)
      (Value.isWhollyKnown_convert (hk.isWhollyKnown wholeKeys) hks)⟩

end

section

variable {values keys search vs ks cs : Value} (h : Compared values keys search vs ks cs)

include h

/-- Candidates listed in another way are compared in the same way. -/
theorem Compared.of_sameElements {search' : Value} (knownKeys : keys.isUnknown = false)
    (same : SameElements search search') :
    ∃ cs', Compared values keys search' vs ks cs' ∧ SameElements cs cs' := by
  obtain ⟨taken, ⟨k, s, common, ⟨hk, hs⟩, unified, hks, hcs⟩, paired⟩ := h
  obtain ⟨s', hs', sameLists, type⟩ := same.convert hs.converted
  obtain ⟨d, rfl⟩ := list_of_unified hk hs knownKeys same.known unified
  obtain ⟨cs', hcs', sameCandidates, _⟩ := sameLists.convert hcs
  refine ⟨cs', ⟨taken, ⟨k, s', .list d, ⟨hk, same.symm.present, hs'⟩, ?_, hks, hcs'⟩, paired⟩,
    sameCandidates⟩
  rw [type, unified]

theorem Compared.matchingValues_eq (wholeKeys : keys.isWhollyKnown = true)
    (wholeSearch : search.isWhollyKnown = true) :
    matchingValues cs.elements (vs.elements.zip ks.elements) =
      some (chosen cs.elements (vs.elements.zip ks.elements)) := by
  obtain ⟨k, s, common, ⟨hk, hs⟩, _, hks, hcs⟩ := h.unified
  have knownKeys : ks.isWhollyKnown = true :=
    Value.isWhollyKnown_convert (hk.isWhollyKnown wholeKeys) hks
  have knownCandidates : cs.isWhollyKnown = true :=
    Value.isWhollyKnown_convert (hs.isWhollyKnown wholeSearch) hcs
  refine matchingValues_of_whole (Value.isWhollyKnown_elements knownCandidates) fun pair hp => ?_
  exact Value.isWhollyKnown_elements knownKeys pair.2 (List.of_mem_zip hp).2

end

/-- The results are the same, unless just one of them is unknown; and the same in any case when the
    candidates are wholly known. -/
structure Agree (search v v' : Value) : Prop where
  alike : v.isUnknown = v'.isUnknown → v = v'
  whole : search.isWhollyKnown = true → v = v'

theorem Agree.withMarks {search v v' : Value} (h : Agree search.erase v v') (m : MarkSet) :
    Agree search (v.withMarks m) (v'.withMarks m) where
  alike := by
    rw [Value.isUnknown_withMarks, Value.isUnknown_withMarks]
    exact fun known => congrArg (Value.withMarks · m) (h.alike known)
  whole := fun whole => by
    have erased : search.erase.isWhollyKnown = true := by
      rwa [Value.Completes.isWhollyKnown_erase]
    rw [h.whole erased]

/-- Scans that both come to an answer come to the same. -/
theorem agree_of_sameElements {search cs cs' : Value} (t : Ty) (pairs : List (Value × Value))
    (same : SameElements cs cs')
    (whole : search.isWhollyKnown = true → matchingValues cs.elements pairs ≠ none ∧
      matchingValues cs'.elements pairs ≠ none) :
    Agree search (answer t (matchingValues cs.elements pairs))
      (answer t (matchingValues cs'.elements pairs)) := by
  have chosenAlike := chosen_congr same.mem_iff pairs
  cases scan : matchingValues cs.elements pairs with
  | none =>
    cases scan' : matchingValues cs'.elements pairs with
    | none => exact ⟨fun _ => rfl, fun _ => rfl⟩
    | some kept' => exact ⟨nofun, fun known => absurd scan (whole known).1⟩
  | some kept =>
    cases scan' : matchingValues cs'.elements pairs with
    | none => exact ⟨nofun, fun known => absurd scan' (whole known).2⟩
    | some kept' =>
      rw [matchingValues_eq_some scan, matchingValues_eq_some scan', chosenAlike]
      exact ⟨fun _ => rfl, fun _ => rfl⟩

/-- The marks of the candidates go around what the candidates without them give. -/
theorem call_marked (ctx : Context) {values keys : Value} (cleanValues : values.Unmarked)
    (cleanKeys : keys.Unmarked) (search : Value) :
    (table engine).call ctx "matchkeys" [values, keys, search] =
      ((table engine).call ctx "matchkeys" [values, keys, search.erase]).map
        (·.withMarks search.allMarks) := by
  have marks : Value.marksOfAll [values, keys, search] = search.allMarks := by
    have noValues : values.allMarks = ∅ := cleanValues
    have noKeys : keys.allMarks = ∅ := cleanKeys
    simp [Value.marksOfAll, noValues, noKeys]
  have strict := takesNoMarks_of_refusesMarks (f := matchkeys) rfl
  rw [standardTable_call matchkeys rfl, standardTable_call matchkeys rfl,
    Function.call_of_takesNoMarks strict, marks]
  simp only [List.map_cons, List.map_nil, Value.erase_eq_self cleanValues,
    Value.erase_eq_self cleanKeys]

section

variable (ctx : Context) {values keys : Value} (wholeValues : values.isWhollyKnown = true)
  (wholeKeys : keys.isWhollyKnown = true) (cleanValues : values.Unmarked) (cleanKeys : keys.Unmarked)

include wholeValues wholeKeys cleanValues cleanKeys

theorem filter_of_call {search v : Value} (wholeSearch : search.isWhollyKnown = true)
    (cleanSearch : search.Unmarked)
    (call : (table engine).call ctx "matchkeys" [values, keys, search] = .ok v) :
    ∃ vs ks cs, Compared values keys search vs ks cs ∧
      v = .list vs.ty.elementType (chosen cs.elements (vs.elements.zip ks.elements)) := by
  have known := Value.Completes.isUnknown_of_isWhollyKnown wholeSearch
  obtain ⟨vs, ks, cs, compared, rfl⟩ :=
    (call_matchkeys wholeValues wholeKeys known cleanValues cleanKeys cleanSearch ctx).1 call
  exact ⟨vs, ks, cs, compared, by rw [compared.matchingValues_eq wholeKeys wholeSearch]; rfl⟩

theorem agree_of_unmarked {search search' v : Value} (same : SameElements search search')
    (clean : search.Unmarked)
    (call : (table engine).call ctx "matchkeys" [values, keys, search] = .ok v) :
    ∃ v', (table engine).call ctx "matchkeys" [values, keys, search'] = .ok v' ∧
      Agree search v v' := by
  have clean' : search'.Unmarked := same.allMarks.symm.trans clean
  have knownKeys := Value.Completes.isUnknown_of_isWhollyKnown wholeKeys
  obtain ⟨vs, ks, cs, compared, rfl⟩ :=
    (call_matchkeys wholeValues wholeKeys same.known cleanValues cleanKeys clean ctx).1 call
  obtain ⟨cs', compared', sameCandidates⟩ := compared.of_sameElements knownKeys same
  have call' : (table engine).call ctx "matchkeys" [values, keys, search'] = .ok _ :=
    (call_matchkeys wholeValues wholeKeys same.symm.known cleanValues cleanKeys clean' ctx).2
      ⟨vs, ks, cs', compared', rfl⟩
  refine ⟨_, call', agree_of_sameElements vs.ty _ sameCandidates fun whole => ?_⟩
  rw [compared.matchingValues_eq wholeKeys whole,
    compared'.matchingValues_eq wholeKeys (same.isWhollyKnown whole)]
  exact ⟨nofun, nofun⟩

theorem agree_of_call {search search' v : Value} (same : SameElements search search')
    (call : (table engine).call ctx "matchkeys" [values, keys, search] = .ok v) :
    ∃ v', (table engine).call ctx "matchkeys" [values, keys, search'] = .ok v' ∧
      Agree search v v' := by
  rw [call_marked ctx cleanValues cleanKeys] at call
  cases plain : (table engine).call ctx "matchkeys" [values, keys, search.erase] with
  | error e =>
    rw [plain] at call
    cases call
  | ok w =>
    rw [plain] at call
    cases call
    obtain ⟨w', call', agree⟩ := agree_of_unmarked ctx wholeValues wholeKeys cleanValues cleanKeys
      same.erase (Value.unmarked_erase search) plain
    refine ⟨w'.withMarks search.allMarks, ?_, agree.withMarks _⟩
    rw [call_marked ctx cleanValues cleanKeys, call', same.allMarks]
    rfl

end

def letters : Value := .stringList ["x", "y", "z"]
def switches : Value := .list .bool [.bool true, .bool false, .bool true]

def wanted : Value := .tuple [.bool true, .string "c"]

def wantedAgain : Value := .tuple [.string "c", .bool true, .string "c"]

def openFirst : Value := .list .string [.unknownOf .string, .string "a"]

def openLast : Value := .list .string [.string "a", .unknownOf .string]

end Standard

end MarkedValues
