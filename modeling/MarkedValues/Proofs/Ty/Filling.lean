import MarkedValues.Proofs.Dict
import MarkedValues.Proofs.Induction
import MarkedValues.Proofs.Lists

/-!
What conversion makes of a type. `Matches actual declared` reads the two side by side: they are the
same but for the `dynamic` parts of the declared one, where the other may have anything. Every
conversion type matches its target, and on canonical targets to match and to fill are one relation.
-/
namespace MarkedValues.Ty

open MarkedValues.Lists

mutual

/-- Attribute names ascend, at every depth. -/
def Canonical : Ty → Prop
  | .string | .number | .bool | .dynamic => True
  | .list e | .set e | .map e => e.Canonical
  | .tuple ts => canonicalAll ts
  | .object attrs => Dict.Sorted attrs ∧ canonicalAttrs attrs

def canonicalAll : List Ty → Prop
  | [] => True
  | t :: ts => t.Canonical ∧ canonicalAll ts

def canonicalAttrs : List (String × Ty) → Prop
  | [] => True
  | (_, t) :: rest => t.Canonical ∧ canonicalAttrs rest

end

@[simp] theorem canonicalAll_iff {ts : List Ty} : canonicalAll ts ↔ ∀ t ∈ ts, t.Canonical := by
  induction ts with
  | nil => simp [canonicalAll]
  | cons t ts ih => simp [canonicalAll, ih]

@[simp] theorem canonicalAttrs_iff {attrs : List (String × Ty)} :
    canonicalAttrs attrs ↔ ∀ a ∈ attrs, a.2.Canonical := by
  induction attrs with
  | nil => simp [canonicalAttrs]
  | cons a rest ih => simp [canonicalAttrs, ih]

@[simp] theorem canonical_list {e : Ty} : (list e).Canonical ↔ e.Canonical := Iff.rfl

@[simp] theorem canonical_set {e : Ty} : (set e).Canonical ↔ e.Canonical := Iff.rfl

@[simp] theorem canonical_map {e : Ty} : (map e).Canonical ↔ e.Canonical := Iff.rfl

mutual

/-- The types agree wherever the declared one is not `dynamic`. -/
def Matches (actual : Ty) : (declared : Ty) → Prop
  | .dynamic => True
  | .string => actual = .string
  | .number => actual = .number
  | .bool => actual = .bool
  | .list e => ∃ f, actual = .list f ∧ Matches f e
  | .set e => ∃ f, actual = .set f ∧ Matches f e
  | .map e => ∃ f, actual = .map f ∧ Matches f e
  | .tuple ts => ∃ fs, actual = .tuple fs ∧ matchesAll fs ts
  | .object attrs => ∃ fields, actual = .object fields ∧ matchesAttrs fields attrs

def matchesAll : (actuals declareds : List Ty) → Prop
  | fs, [] => fs = []
  | fs, t :: ts => ∃ f rest, fs = f :: rest ∧ Matches f t ∧ matchesAll rest ts

def matchesAttrs : (fields attrs : List (String × Ty)) → Prop
  | fields, [] => fields = []
  | fields, (k, t) :: attrs =>
    ∃ f rest, fields = (k, f) :: rest ∧ Matches f t ∧ matchesAttrs rest attrs

end

def MatchesAttr (a b : String × Ty) : Prop := a.1 = b.1 ∧ Matches a.2 b.2

@[simp] theorem matchesAll_iff {fs ts : List Ty} :
    matchesAll fs ts ↔ List.Forall₂ Matches fs ts := by
  induction ts generalizing fs with
  | nil => simp [matchesAll]
  | cons t ts ih => cases fs <;> simp [matchesAll, ih]

@[simp] theorem matchesAttrs_iff {fields attrs : List (String × Ty)} :
    matchesAttrs fields attrs ↔ List.Forall₂ MatchesAttr fields attrs := by
  induction attrs generalizing fields with
  | nil => simp [matchesAttrs]
  | cons a attrs ih =>
    cases fields with
    | nil => simp [matchesAttrs]
    | cons f fields =>
      simp only [matchesAttrs, List.forall₂_cons, MatchesAttr, ih]
      constructor
      · rintro ⟨g, rest, heq, hg, hrest⟩
        cases heq
        exact ⟨⟨rfl, hg⟩, hrest⟩
      · rintro ⟨⟨hk, hf⟩, hrest⟩
        exact ⟨f.2, fields, by rw [← hk], hf, hrest⟩

@[simp] theorem matches_dynamic (t : Ty) : Matches t .dynamic := by simp [Matches]

theorem Matches.refl (t : Ty) : Matches t t := by
  induction t with
  | list e ih | set e ih | map e ih => simpa [Matches] using ih
  | tuple ts ih => simpa [Matches, List.forall₂_same] using ih
  | object attrs ih =>
    refine ⟨attrs, rfl, matchesAttrs_iff.2 (List.forall₂_same.2 fun a ha => ?_)⟩
    exact ⟨rfl, ih a ha⟩
  | _ => simp [Matches]

theorem Matches.trans {a b c : Ty} (hab : Matches a b) (hbc : Matches b c) : Matches a c := by
  induction c generalizing a b with
  | dynamic => exact matches_dynamic a
  | list e ih | set e ih | map e ih =>
    obtain ⟨f, rfl, hf⟩ := hbc
    obtain ⟨g, rfl, hg⟩ := hab
    exact ⟨g, rfl, ih hg hf⟩
  | tuple ts ih =>
    obtain ⟨us, rfl, hus⟩ := hbc
    obtain ⟨fs, rfl, hfs⟩ := hab
    rw [matchesAll_iff] at hus hfs
    exact ⟨fs, rfl, matchesAll_iff.2 (forall₂_trans (fun t ht _ _ => ih t ht) hfs hus)⟩
  | object attrs ih =>
    obtain ⟨us, rfl, hus⟩ := hbc
    obtain ⟨fs, rfl, hfs⟩ := hab
    rw [matchesAttrs_iff] at hus hfs
    refine ⟨fs, rfl, matchesAttrs_iff.2 (forall₂_trans (fun t ht x y hx hy => ?_) hfs hus)⟩
    exact ⟨hx.1.trans hy.1, ih t ht hx.2 hy.2⟩
  | _ =>
    simp only [Matches] at hbc
    subst hbc
    exact hab

theorem Matches.isDynamic {t : Ty} (h : Matches .dynamic t) : t = .dynamic := by
  cases t <;> simp [Matches] at h
  rfl

@[simp] theorem anyDynamic_eq_any (ts : List Ty) : anyDynamic ts = ts.any hasDynamic := by
  induction ts with
  | nil => rfl
  | cons t ts ih => simp [anyDynamic, ih]

@[simp] theorem anyAttrDynamic_eq_any (attrs : List (String × Ty)) :
    anyAttrDynamic attrs = attrs.any fun a => a.2.hasDynamic := by
  induction attrs with
  | nil => rfl
  | cons a rest ih => simp [anyAttrDynamic, ih]

theorem Matches.eq_of_closed {a t : Ty} (h : Matches a t) (closed : t.hasDynamic = false) :
    a = t := by
  induction t generalizing a with
  | dynamic => simp [hasDynamic] at closed
  | list e ih | set e ih | map e ih =>
    obtain ⟨f, rfl, hf⟩ := h
    rw [ih hf closed]
  | tuple ts ih =>
    obtain ⟨fs, rfl, hfs⟩ := h
    simp only [hasDynamic, anyDynamic_eq_any, List.any_eq_false] at closed
    rw [eq_of_forall₂ (fun t ht f hf => ih t ht hf (by simpa using closed t ht))
      (matchesAll_iff.1 hfs)]
  | object attrs ih =>
    obtain ⟨fields, rfl, hfields⟩ := h
    simp only [hasDynamic, anyAttrDynamic_eq_any, List.any_eq_false] at closed
    have eq : fields = attrs := by
      refine eq_of_forall₂ (fun a ha f hf => ?_) (matchesAttrs_iff.1 hfields)
      exact Prod.ext hf.1 (ih a ha hf.2 (by simpa using closed a ha))
    rw [eq]
  | _ => exact h

@[simp] theorem conversionType_self (t : Ty) : conversionType t t = some t := by
  cases t <;> simp [conversionType, isPrimitive]

theorem elementTarget_matches {fs : List Ty} {e u : Ty} {target : Ty → Option Ty}
    (h : elementTarget fs e target = some u) : Matches u e := by
  unfold elementTarget at h
  split at h
  · next open_ =>
    rw [isDynamic_iff] at open_
    subst open_
    exact matches_dynamic u
  · split at h
    · cases h
      exact Matches.refl _
    · contradiction

theorem conversionTypes_matches {fs ts us : List Ty} (len : fs.length = ts.length)
    (each : ∀ t ∈ ts, ∀ f u, conversionType f t = some u → Matches u t)
    (h : conversionTypes fs ts = some us) : List.Forall₂ Matches us ts := by
  induction ts generalizing fs us with
  | nil =>
    cases List.length_eq_zero_iff.1 len
    simp only [conversionTypes, Option.some.injEq] at h
    subst h
    exact .nil
  | cons t ts ih =>
    obtain ⟨f, rest, rfl⟩ := List.exists_cons_of_length_eq_add_one len
    simp only [conversionTypes, Option.bind_eq_bind, Option.bind_eq_some_iff] at h
    obtain ⟨u, hu, vs, hvs, heq⟩ := h
    cases heq
    have len' : rest.length = ts.length := Nat.succ.inj len
    exact .cons (each t (by simp) f u hu) (ih len' (fun s hs => each s (by simp [hs])) hvs)

theorem conversionAttrs_matches {source : String → Option Ty} {attrs us : List (String × Ty)}
    (each : ∀ a ∈ attrs, ∀ f u, conversionType f a.2 = some u → Matches u a.2)
    (h : conversionAttrs source attrs = some us) : List.Forall₂ MatchesAttr us attrs := by
  induction attrs generalizing us with
  | nil =>
    simp only [conversionAttrs, Option.some.injEq] at h
    subst h
    exact .nil
  | cons a rest ih =>
    simp only [conversionAttrs, Option.bind_eq_bind, Option.bind_eq_some_iff] at h
    obtain ⟨f, _, u, hu, vs, hvs, heq⟩ := h
    cases heq
    exact .cons ⟨rfl, each a (by simp) f u hu⟩ (ih (fun b hb => each b (by simp [hb])) hvs)

/-- The type after conversion has the shape of the target. -/
theorem conversionType_matches {s t u : Ty} (h : conversionType s t = some u) : Matches u t := by
  induction t generalizing s u with
  | dynamic => exact matches_dynamic u
  | string | number | bool =>
    simp only [conversionType] at h
    split at h
    · cases h
      rfl
    · contradiction
  | list e ih | set e ih | map e ih =>
    simp only [conversionType] at h
    split at h
    · cases h
      exact Matches.refl _
    · split at h
      all_goals first
        | contradiction
        | obtain ⟨v, hv, rfl⟩ := Option.map_eq_some_iff.1 h
      · exact ⟨v, rfl, ih hv⟩
      · first
          | exact ⟨v, rfl, ih hv⟩
          | exact ⟨v, rfl, elementTarget_matches hv⟩
      all_goals exact ⟨v, rfl, elementTarget_matches hv⟩
  | tuple ts ih =>
    simp only [conversionType] at h
    split at h
    · cases h
      exact Matches.refl _
    · split at h
      · split at h
        · next len =>
          obtain ⟨us, hus, rfl⟩ := Option.map_eq_some_iff.1 h
          have all := conversionTypes_matches (eq_of_beq len) (fun t ht _ _ => ih t ht) hus
          exact ⟨us, rfl, matchesAll_iff.2 all⟩
        · contradiction
      · obtain ⟨us, hus, rfl⟩ := Option.map_eq_some_iff.1 h
        have all := conversionTypes_matches (by simp) (fun t ht _ _ => ih t ht) hus
        exact ⟨us, rfl, matchesAll_iff.2 all⟩
      · obtain ⟨us, hus, rfl⟩ := Option.map_eq_some_iff.1 h
        have all := conversionTypes_matches (by simp) (fun t ht _ _ => ih t ht) hus
        exact ⟨us, rfl, matchesAll_iff.2 all⟩
      · contradiction
  | object attrs ih =>
    simp only [conversionType] at h
    split at h
    · cases h
      exact Matches.refl _
    · split at h
      · obtain ⟨us, hus, rfl⟩ := Option.map_eq_some_iff.1 h
        exact ⟨us, rfl, matchesAttrs_iff.2 (conversionAttrs_matches (fun a ha _ _ => ih a ha) hus)⟩
      · obtain ⟨us, hus, rfl⟩ := Option.map_eq_some_iff.1 h
        exact ⟨us, rfl, matchesAttrs_iff.2 (conversionAttrs_matches (fun a ha _ _ => ih a ha) hus)⟩
      · contradiction

theorem conversionTypes_of_fills {us ts : List Ty}
    (h : List.Forall₂ (fun u t => conversionType u t = some u) us ts) :
    conversionTypes us ts = some us := by
  induction h with
  | nil => rfl
  | cons hu _ ih => simp [conversionTypes, hu, ih]

theorem conversionAttrs_of_fills {source : String → Option Ty} {us attrs : List (String × Ty)}
    (found : ∀ u ∈ us, source u.1 = some u.2)
    (h : List.Forall₂ (fun u a => u.1 = a.1 ∧ conversionType u.2 a.2 = some u.2) us attrs) :
    conversionAttrs source attrs = some us := by
  induction h with
  | nil => rfl
  | @cons u a us attrs hu _ ih =>
    obtain ⟨k, f⟩ := u
    obtain ⟨l, t⟩ := a
    obtain ⟨rfl, hf⟩ := hu
    have hsource : source k = some f := found (k, f) (by simp)
    have hrest := ih fun w hw => found w (by simp [hw])
    simp [conversionAttrs, hsource, hf, hrest]

theorem keys_eq_of_matchesAttrs {us attrs : List (String × Ty)}
    (h : List.Forall₂ MatchesAttr us attrs) : Dict.keys us = Dict.keys attrs := by
  induction h with
  | nil => rfl
  | cons hu _ ih => simp only [Dict.keys, List.map_cons, hu.1] at ih ⊢; rw [ih]

/-- On a canonical target, a type that matches it is its own conversion type. -/
theorem Matches.fills {u t : Ty} (h : Matches u t) (canonical : t.Canonical) : Fills u t := by
  unfold Fills
  induction t generalizing u with
  | dynamic => rfl
  | list e ih | set e ih | map e ih =>
    obtain ⟨f, rfl, hf⟩ := h
    simp only [conversionType]
    split
    · next same =>
      have eq : f = e := by simpa using same
      rw [eq]
    · simp [ih hf canonical]
  | tuple ts ih =>
    obtain ⟨us, rfl, hus⟩ := h
    simp only [Canonical, canonicalAll_iff] at canonical
    simp only [conversionType]
    split
    · next same =>
      have eq : us = ts := by simpa using same
      rw [eq]
    · have hus := matchesAll_iff.1 hus
      have all : conversionTypes us ts = some us :=
        conversionTypes_of_fills (forall₂_imp (fun t ht u hu => ih t ht hu (canonical t ht)) hus)
      simp [hus.length_eq, all]
  | object attrs ih =>
    obtain ⟨us, rfl, hus⟩ := h
    simp only [Canonical, canonicalAttrs_iff] at canonical
    simp only [conversionType]
    split
    · next same =>
      have eq : us = attrs := by simpa using same
      rw [eq]
    · have hus := matchesAttrs_iff.1 hus
      have sorted : Dict.Sorted us := canonical.1.of_keys_eq (keys_eq_of_matchesAttrs hus)
      have all : conversionAttrs (us.lookup ·) attrs = some us := by
        refine conversionAttrs_of_fills (fun w hw => Dict.lookup_of_mem sorted hw) ?_
        exact forall₂_imp (fun a ha u hu => ⟨hu.1, ih a ha hu.2 (canonical.2 a ha)⟩) hus
      simp [all]
  | _ =>
    simp only [Matches] at h
    subst h
    rfl

theorem fills_iff_matches {u t : Ty} (canonical : t.Canonical) : Fills u t ↔ Matches u t :=
  ⟨conversionType_matches, fun h => h.fills canonical⟩

end MarkedValues.Ty
