import MarkedValues.Proofs.Outcomes
import MarkedValues.Proofs.Ty.Filling

/-!
What a conversion that succeeds has done. `Converts` lists the ways it can succeed, each with what
it did to the parts; the type and the state of the result are read off it. The result need not have
the type that was asked for: where that is left open a part brings its own.
-/
namespace MarkedValues.Value

open MarkedValues.Lists Outcomes
open Ty (Matches MatchesAttr conversionType)

@[simp] theorem ty_withMarks (v : Value) (m : MarkSet) : (v.withMarks m).ty = v.ty :=
  ty_setMarks v _

@[simp] theorem isNull_setMarks (v : Value) (m : MarkSet) : (v.setMarks m).isNull = v.isNull := by
  cases v <;> rfl

@[simp] theorem isUnknown_setMarks (v : Value) (m : MarkSet) :
    (v.setMarks m).isUnknown = v.isUnknown := by
  cases v <;> rfl

@[simp] theorem isNull_withMarks (v : Value) (m : MarkSet) : (v.withMarks m).isNull = v.isNull :=
  isNull_setMarks v _

@[simp] theorem isUnknown_withMarks (v : Value) (m : MarkSet) :
    (v.withMarks m).isUnknown = v.isUnknown :=
  isUnknown_setMarks v _

section

variable {v : Value} (present : v.isNull = false) (known : v.isUnknown = false)

include present known

theorem exists_sequence_of_ty (kind : v.ty.isSequence = true) : ∃ k es m, v = .sequence k es m := by
  cases v with
  | null t m => cases present
  | unknown t n m => cases known
  | scalar c m => cases c <;> cases kind
  | sequence k es m => exact ⟨k, es, m, rfl⟩
  | mapping k es m => cases k <;> cases kind

theorem exists_mapping_of_ty (kind : v.ty.isMapping = true) : ∃ k es m, v = .mapping k es m := by
  cases v with
  | null t m => cases present
  | unknown t n m => cases known
  | scalar c m => cases c <;> cases kind
  | sequence k es m => cases k <;> cases kind
  | mapping k es m => exact ⟨k, es, m, rfl⟩

theorem ty_ne_dynamic : v.ty ≠ .dynamic := by
  cases v with
  | null t m => cases present
  | unknown t n m => cases known
  | scalar c m => cases c <;> exact Ty.noConfusion
  | sequence k es m => cases k <;> exact Ty.noConfusion
  | mapping k es m => cases k <;> exact Ty.noConfusion

end

inductive ConvertedEach : List Value → List Ty → List Value → Prop
  | nil : ConvertedEach [] [] []
  | cons {v w : Value} {t : Ty} {vs ws : List Value} {ts : List Ty} :
    convert v t = .ok w → ConvertedEach vs ts ws → ConvertedEach (v :: vs) (t :: ts) (w :: ws)

theorem forall_of_convertedEach {P : Value → Prop} {vs ws : List Value} {ts : List Ty}
    (each : ∀ v ∈ vs, ∀ t ∈ ts, ∀ w, convert v t = .ok w → P w) (h : ConvertedEach vs ts ws) :
    ∀ w ∈ ws, P w := by
  induction h with
  | nil => exact fun w hw => nomatch hw
  | @cons v w t vs ws ts hw _ ih =>
    have later := ih fun v hv t ht => each v (by simp [hv]) t (by simp [ht])
    exact List.forall_mem_cons.2 ⟨each v (by simp) t (by simp) w hw, later⟩

def ConvertedAttr (es : List (String × Value)) (a : String × Ty) (w : String × Value) : Prop :=
  a.1 = w.1 ∧ ∃ v, es.lookup a.1 = some v ∧ convert v a.2 = .ok w.2

def ConvertedEntry (t : Ty) (e w : String × Value) : Prop := e.1 = w.1 ∧ convert e.2 t = .ok w.2

/-- The ways in which a conversion succeeds. -/
inductive Converts : Value → Ty → Value → Prop
  | same {v : Value} {t : Ty} : t = .dynamic ∨ v.ty = t → Converts v t v
  | null {s t u : Ty} {m : MarkSet} : conversionType s t = some u →
    Converts (.null s m) t (.null u m)
  | unknown {s t u : Ty} {r : Bool} {m : MarkSet} : conversionType s t = some u →
    Converts (.unknown s r m) t (.unknown u r m)
  | scalar {s : Scalar} {t u : Ty} {w : Value} {m : MarkSet} : conversionType s.ty t = some u →
    convertScalar s u = .ok w → Converts (.scalar s m) t (w.withMarks m)
  | list {k : SequenceKind} {es ws : List Value} {m : MarkSet} {t e : Ty} :
    conversionType (Value.ty (.sequence k es m)) t = some (.list e) →
    List.Forall₂ (fun v w => convert v e = .ok w) es ws →
    Converts (.sequence k es m) t ((Value.list e ws).withMarks m)
  | set {k : SequenceKind} {es ws : List Value} {m : MarkSet} {t e : Ty} :
    conversionType (Value.ty (.sequence k es m)) t = some (.set e) →
    List.Forall₂ (fun v w => convert v e = .ok w) es ws →
    Converts (.sequence k es m) t ((Value.set e ws).withMarks m)
  | tuple {k : SequenceKind} {es ws : List Value} {m : MarkSet} {t : Ty} {ts : List Ty} :
    conversionType (Value.ty (.sequence k es m)) t = some (.tuple ts) →
    ConvertedEach es ts ws →
    Converts (.sequence k es m) t ((Value.tuple ws).withMarks m)
  | map {k : MappingKind} {es ws : List (String × Value)} {m : MarkSet} {t e : Ty} :
    conversionType (Value.ty (.mapping k es m)) t = some (.map e) →
    List.Forall₂ (ConvertedEntry e) es ws →
    Converts (.mapping k es m) t ((Value.map e ws).withMarks m)
  | object {k : MappingKind} {es ws : List (String × Value)} {m : MarkSet} {t : Ty}
    {attrs : List (String × Ty)} :
    conversionType (Value.ty (.mapping k es m)) t = some (.object attrs) →
    List.Forall₂ (ConvertedAttr es) attrs ws →
    (∀ e, k = .map e → unexpectedKey? es attrs = none) →
    Converts (.mapping k es m) t ((Value.object ws).withMarks m)

theorem within_eq_ok {step : PathStep} {x : Converted} {w : Value} :
    x.within step = .ok w ↔ x = .ok w := by
  exact mapError_eq_ok

theorem forall₂_of_convertAll {vs ws : List Value} {i : Nat} {t : Ty}
    (h : convertAll vs i t = .ok ws) : List.Forall₂ (fun v w => convert v t = .ok w) vs ws := by
  induction vs generalizing i ws with
  | nil =>
    cases h
    exact .nil
  | cons v vs ih =>
    simp only [convertAll, bind_eq_ok, within_eq_ok] at h
    obtain ⟨w, hw, us, hus, heq⟩ := h
    cases heq
    exact .cons hw (ih hus)

theorem convertedEach_of_convertEach {vs ws : List Value} {i : Nat} {ts : List Ty}
    (len : vs.length = ts.length) (h : convertEach vs i ts = .ok ws) : ConvertedEach vs ts ws := by
  induction vs generalizing i ts ws with
  | nil =>
    cases List.length_eq_zero_iff.1 len.symm
    cases h
    exact .nil
  | cons v vs ih =>
    obtain ⟨t, ts, rfl⟩ := List.exists_cons_of_length_eq_add_one len.symm
    simp only [convertEach, bind_eq_ok, within_eq_ok] at h
    obtain ⟨w, hw, us, hus, heq⟩ := h
    cases heq
    exact .cons hw (ih (Nat.succ.inj len) hus)

theorem forall₂_of_convertEntries {es ws : List (String × Value)} {t : Ty}
    (h : convertEntries es t = .ok ws) : List.Forall₂ (ConvertedEntry t) es ws := by
  induction es generalizing ws with
  | nil =>
    cases h
    exact .nil
  | cons e es ih =>
    simp only [convertEntries, bind_eq_ok, within_eq_ok] at h
    obtain ⟨w, hw, us, hus, heq⟩ := h
    cases heq
    exact .cons ⟨rfl, hw⟩ (ih hus)

theorem lookup_converters (es : List (String × Value)) (k : String) :
    (converters es).lookup k = (es.lookup k).map convert := by
  induction es with
  | nil => rfl
  | cons e es ih =>
    obtain ⟨l, v⟩ := e
    by_cases hk : k = l
    · subst hk
      simp [converters]
    · rw [converters, Dict.lookup_cons_of_ne hk, Dict.lookup_cons_of_ne hk, ih]

theorem forall₂_of_convertAttrs {es ws : List (String × Value)} {attrs : List (String × Ty)}
    (h : convertAttrs (converters es) attrs = .ok ws) :
    List.Forall₂ (ConvertedAttr es) attrs ws := by
  induction attrs generalizing ws with
  | nil =>
    cases h
    exact .nil
  | cons a attrs ih =>
    obtain ⟨k, t⟩ := a
    rw [convertAttrs, lookup_converters] at h
    cases found : es.lookup k with
    | none => simp [found] at h
    | some v =>
      simp only [found, Option.map_some, bind_eq_ok, within_eq_ok] at h
      obtain ⟨w, hw, us, hus, heq⟩ := h
      cases heq
      exact .cons ⟨rfl, v, found, hw⟩ (ih hus)

/-- Conversion to a type already known to be the conversion type. -/
def convertTo (u : Ty) : Value → Converted
  | .null _ m => .ok (.null u m)
  | .unknown _ r m => .ok (.unknown u r m)
  | .scalar s m => do .ok ((← convertScalar s u).withMarks m)
  | .sequence k es m => match u with
    | .list e => do .ok ((list e (← convertAll es 0 e)).withMarks m)
    | .set e => do .ok ((set e (← convertAll es 0 e)).withMarks m)
    | .tuple ts =>
      if es.length ≠ ts.length then fail (.lengthMismatch ts.length es.length)
      else do .ok ((tuple (← convertEach es 0 ts)).withMarks m)
    | t => fail (.incompatible (Value.ty (.sequence k es m)) t)
  | .mapping k es m => match u with
    | .map e => do .ok ((map e (← convertEntries es e)).withMarks m)
    | .object attrs =>
      match (if k matches .map _ then unexpectedKey? es attrs else none) with
      | some k => fail (.unexpectedAttribute k)
      | none => do .ok ((object (← convertAttrs (converters es) attrs)).withMarks m)
    | t => fail (.incompatible (Value.ty (.mapping k es m)) t)

theorem convert_of_same {v : Value} {t : Ty} (same : t = .dynamic ∨ v.ty = t) :
    convert v t = .ok v := by
  have cond : (t.isDynamic || v.ty == t) = true := by simpa using same
  rw [convert, if_pos cond]

theorem convert_of_ne {v : Value} {t : Ty} (differ : ¬ (t = .dynamic ∨ v.ty = t)) :
    convert v t = match conversionType v.ty t with
      | none => fail (.incompatible v.ty t)
      | some u => convertTo u v := by
  have cond : ¬ (t.isDynamic || v.ty == t) = true := by simpa using differ
  rw [convert, if_neg cond]
  cases v <;> rfl

theorem converts_sequence {k : SequenceKind} {es : List Value} {m : MarkSet} {t u : Ty} {w : Value}
    (hu : conversionType (Value.ty (.sequence k es m)) t = some u)
    (h : convertTo u (.sequence k es m) = .ok w) : Converts (.sequence k es m) t w := by
  cases u with
  | list e =>
    simp only [convertTo, bind_eq_ok] at h
    obtain ⟨ws, hws, heq⟩ := h
    cases heq
    exact .list hu (forall₂_of_convertAll hws)
  | set e =>
    simp only [convertTo, bind_eq_ok] at h
    obtain ⟨ws, hws, heq⟩ := h
    cases heq
    exact .set hu (forall₂_of_convertAll hws)
  | tuple ts =>
    simp only [convertTo, ne_eq, ite_not] at h
    split at h
    · next len =>
      simp only [bind_eq_ok] at h
      obtain ⟨ws, hws, heq⟩ := h
      cases heq
      exact .tuple hu (convertedEach_of_convertEach len hws)
    · contradiction
  | _ => contradiction

theorem converts_mapping {k : MappingKind} {es : List (String × Value)} {m : MarkSet} {t u : Ty}
    {w : Value} (hu : conversionType (Value.ty (.mapping k es m)) t = some u)
    (h : convertTo u (.mapping k es m) = .ok w) : Converts (.mapping k es m) t w := by
  cases u with
  | map e =>
    simp only [convertTo, bind_eq_ok] at h
    obtain ⟨ws, hws, heq⟩ := h
    cases heq
    exact .map hu (forall₂_of_convertEntries hws)
  | object attrs =>
    simp only [convertTo] at h
    split at h
    · contradiction
    · next clean =>
      simp only [bind_eq_ok] at h
      obtain ⟨ws, hws, heq⟩ := h
      cases heq
      refine .object hu (forall₂_of_convertAttrs hws) fun e hk => ?_
      subst hk
      exact clean
  | _ => contradiction

theorem converts_of_convert {v w : Value} {t : Ty} (h : convert v t = .ok w) : Converts v t w := by
  by_cases same : t = .dynamic ∨ v.ty = t
  · rw [convert_of_same same] at h
    cases h
    exact .same same
  · rw [convert_of_ne same] at h
    split at h
    · contradiction
    · next u hu =>
      cases v with
      | null s m =>
        cases h
        exact .null hu
      | unknown s r m =>
        cases h
        exact .unknown hu
      | scalar s m =>
        simp only [convertTo, bind_eq_ok] at h
        obtain ⟨w, hw, heq⟩ := h
        cases heq
        exact .scalar hu hw
      | sequence k es m => exact converts_sequence hu h
      | mapping k es m => exact converts_mapping hu h

theorem scalar_of_convertScalar {s : Scalar} {t : Ty} {w : Value}
    (h : convertScalar s t = .ok w) : ∃ c : Scalar, w = .scalar c ∅ ∧ c.ty = t := by
  unfold convertScalar at h
  split at h
  case h_3 =>
    split at h
    · cases h
      exact ⟨_, rfl, rfl⟩
    · contradiction
  case h_4 =>
    split at h
    · cases h
      exact ⟨_, rfl, rfl⟩
    · split at h
      · cases h
        exact ⟨_, rfl, rfl⟩
      · contradiction
  case h_8 => contradiction
  all_goals
    cases h
    exact ⟨_, rfl, rfl⟩

theorem isNull_convert {v w : Value} {t : Ty} (h : convert v t = .ok w) : w.isNull = v.isNull := by
  cases converts_of_convert h with
  | scalar _ hw =>
    obtain ⟨c, rfl, _⟩ := scalar_of_convertScalar hw
    rfl
  | _ => rfl

theorem isUnknown_convert {v w : Value} {t : Ty} (h : convert v t = .ok w) :
    w.isUnknown = v.isUnknown := by
  cases converts_of_convert h with
  | scalar _ hw =>
    obtain ⟨c, rfl, _⟩ := scalar_of_convertScalar hw
    rfl
  | _ => rfl

theorem matches_of_convertedEach {vs ws : List Value} {us ts : List Ty}
    (each : ∀ v ∈ vs, ∀ u t w, Matches u t → t.Canonical → convert v u = .ok w → Matches w.ty t)
    (canonical : ∀ t ∈ ts, t.Canonical) (below : List.Forall₂ Matches us ts)
    (h : ConvertedEach vs us ws) : List.Forall₂ Matches (ws.map ty) ts := by
  induction h generalizing ts with
  | nil =>
    cases below
    exact .nil
  | @cons v w u vs ws us hw _ ih =>
    cases below with
    | @cons _ t _ ts hu hus =>
      have first := each v (by simp) u t w hu (canonical t (by simp)) hw
      exact .cons first (ih (fun x hx => each x (by simp [hx]))
        (fun s hs => canonical s (by simp [hs])) hus)

theorem matches_of_convertedAttrs {es ws : List (String × Value)} {us attrs : List (String × Ty)}
    (each : ∀ e ∈ es, ∀ u t w, Matches u t → t.Canonical → convert e.2 u = .ok w → Matches w.ty t)
    (canonical : ∀ a ∈ attrs, a.2.Canonical) (below : List.Forall₂ MatchesAttr us attrs)
    (h : List.Forall₂ (ConvertedAttr es) us ws) :
    List.Forall₂ MatchesAttr (ws.map fun e => (e.1, e.2.ty)) attrs := by
  induction h generalizing attrs with
  | nil =>
    cases below
    exact .nil
  | @cons u w us ws hw _ ih =>
    cases below with
    | @cons _ a _ attrs hu hus =>
      obtain ⟨hk, v, found, hv⟩ := hw
      have mem := Dict.mem_of_lookup found
      have first := each _ mem u.2 a.2 w.2 hu.2 (canonical a (by simp)) hv
      exact .cons ⟨hk.symm.trans hu.1, first⟩
        (ih (fun b hb => canonical b (by simp [hb])) hus)

theorem keys_of_convertedAttrs {es ws : List (String × Value)} {attrs : List (String × Ty)}
    (h : List.Forall₂ (ConvertedAttr es) attrs ws) : Dict.keys ws = Dict.keys attrs := by
  induction h with
  | nil => rfl
  | cons hw _ ih =>
    simp only [Dict.keys, List.map_cons, hw.1] at ih ⊢
    rw [ih]

theorem matches_of_same {v : Value} {u t : Ty} (below : Matches u t)
    (same : u = .dynamic ∨ v.ty = u) : Matches v.ty t := by
  rcases same with rfl | rfl
  · rw [below.isDynamic]
    exact Ty.matches_dynamic _
  · exact below

/-- The type of the result matches any canonical type that the target matches. -/
theorem matches_convert {v w : Value} {u t : Ty} (below : Matches u t) (canonical : t.Canonical)
    (h : convert v u = .ok w) : Matches w.ty t := by
  -- Parts are converted to parts of the conversion type, so `u` may have less open than `t`.
  induction v generalizing u t w with
  | null s m =>
    cases converts_of_convert h with
    | same eq => exact matches_of_same below eq
    | null hu => exact (Ty.conversionType_matches hu).trans below
  | unknown s r m =>
    cases converts_of_convert h with
    | same eq => exact matches_of_same below eq
    | unknown hu => exact (Ty.conversionType_matches hu).trans below
  | scalar s m =>
    cases converts_of_convert h with
    | same eq => exact matches_of_same below eq
    | scalar hu hw =>
      obtain ⟨c, rfl, rfl⟩ := scalar_of_convertScalar hw
      exact (Ty.conversionType_matches hu).trans below
  | sequence k es m ih =>
    cases converts_of_convert h with
    | same eq => exact matches_of_same below eq
    | list hu _ => exact (Ty.conversionType_matches hu).trans below
    | set hu _ => exact (Ty.conversionType_matches hu).trans below
    | @tuple _ _ ws _ _ us hu each =>
      have shape : Matches (.tuple us) t := (Ty.conversionType_matches hu).trans below
      cases t with
      | dynamic => exact Ty.matches_dynamic _
      | tuple ts =>
        obtain ⟨vs, heq, hvs⟩ := shape
        cases heq
        simp only [Ty.Canonical, Ty.canonicalAll_iff] at canonical
        have parts := matches_of_convertedEach (fun v hv _ _ _ hb hc hw => ih v hv hb hc hw)
          canonical (Ty.matchesAll_iff.1 hvs) each
        rw [ty_withMarks]
        exact ⟨ws.map ty, by simp [tuple, ty], Ty.matchesAll_iff.2 parts⟩
      | _ => simp [Matches] at shape
  | mapping k es m ih =>
    cases converts_of_convert h with
    | same eq => exact matches_of_same below eq
    | map hu _ => exact (Ty.conversionType_matches hu).trans below
    | @object _ _ ws _ _ us hu each _ =>
      have shape : Matches (.object us) t := (Ty.conversionType_matches hu).trans below
      cases t with
      | dynamic => exact Ty.matches_dynamic _
      | object attrs =>
        obtain ⟨fields, heq, hfields⟩ := shape
        cases heq
        simp only [Ty.Canonical, Ty.canonicalAttrs_iff] at canonical
        have hfields := Ty.matchesAttrs_iff.1 hfields
        have keys := (keys_of_convertedAttrs each).trans (Ty.keys_eq_of_matchesAttrs hfields)
        have sorted : Dict.Sorted ws := canonical.1.of_keys_eq keys
        have parts := matches_of_convertedAttrs (fun e he _ _ _ hb hc hw => ih e he hb hc hw)
          canonical.2 hfields each
        rw [ty_withMarks, object, Dict.ofList_of_sorted sorted]
        exact ⟨_, by simp [ty], Ty.matchesAttrs_iff.2 parts⟩
      | _ => simp [Matches] at shape

/-- The result has the conversion type, unless parts of a tuple or object bring their own types. -/
theorem conversionType_of_convert {v w : Value} {t : Ty} (tuple : t.isTuple = false)
    (object : t.isObject = false) (h : convert v t = .ok w) : conversionType v.ty t = some w.ty := by
  by_cases same : t = .dynamic ∨ v.ty = t
  · rw [convert_of_same same] at h
    cases h
    rcases same with rfl | rfl
    · rfl
    · exact Ty.conversionType_self v.ty
  have closed : t ≠ .dynamic := fun dynamic => same (.inl dynamic)
  cases converts_of_convert h with
  | same eq => exact absurd eq same
  | null hu => exact hu
  | unknown hu => exact hu
  | scalar hu hw =>
    obtain ⟨c, rfl, rfl⟩ := scalar_of_convertScalar hw
    exact hu
  | list hu _ => exact (ty_withMarks _ _).symm ▸ hu
  | set hu _ => exact (ty_withMarks _ _).symm ▸ hu
  | map hu _ => exact (ty_withMarks _ _).symm ▸ hu
  | tuple hu _ =>
    have shape := Ty.conversionType_matches hu
    cases t <;> simp [Matches, Ty.isTuple] at shape tuple closed
  | object hu _ _ =>
    have shape := Ty.conversionType_matches hu
    cases t <;> simp [Matches, Ty.isObject] at shape object closed

/-- What a value converts to has the target's type with its `dynamic` parts filled in. -/
theorem fills_convert {v w : Value} {t : Ty} (canonical : t.Canonical)
    (h : convert v t = .ok w) : Ty.Fills w.ty t :=
  (matches_convert (Matches.refl t) canonical h).fills canonical

end MarkedValues.Value
