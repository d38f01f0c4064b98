import MarkedValues.Proofs.Value.WellFormed
import MarkedValues.Proofs.Value.Converted

/-!
Where a conversion fails. An error's path leads through the value and through its
target side by side, and what it leads to is at fault itself, not through a part; every
part in front of it converts.
-/
namespace MarkedValues

def Ty.part? : Ty → PathStep → Option Ty
  | .list e, .index _ | .set e, .index _ => some e
  | .tuple ts, .index i => ts[i]?
  | .map e, .key _ => some e
  | .object attrs, .key k => attrs.lookup k
  | _, _ => none

theorem Ty.canonical_part? {t u : Ty} {step : PathStep} (canonical : t.Canonical)
    (h : t.part? step = some u) : u.Canonical := by
  cases step with
  | index i =>
    cases t with
    | list e | set e =>
      cases h
      exact canonical
    | tuple ts => exact canonicalAll_iff.1 canonical u (List.mem_of_getElem? h)
    | _ => cases h
  | key k =>
    cases t with
    | map e =>
      cases h
      exact canonical
    | object attrs => exact canonicalAttrs_iff.1 canonical.2 _ (Dict.mem_of_lookup h)
    | _ => cases h

namespace Value

open Outcomes
open Ty (conversionType)

def part? (v : Value) : PathStep → Option Value
  | .index i => v.elements[i]?
  | .key k => v.entries.lookup k

/-- The part at a step with what it is to be converted to. The value's type fills in its target
    before this is taken apart. -/
def step? (v : Value) (target : Ty) (step : PathStep) : Option (Value × Ty) := do
  let resolved ← conversionType v.ty target
  let part ← v.part? step
  let partTarget ← resolved.part? step
  some (part, partTarget)

/-- What a path leads to, step by step. -/
def follow? (v : Value) (target : Ty) : List PathStep → Option (Value × Ty)
  | [] => some (v, target)
  | step :: path => (v.step? target step).bind fun next => follow? next.1 next.2 path

/-- Keys and names of attributes ascend at every depth, in the value and in its types. -/
inductive Ascending : Value → Prop
  | intro {v : Value} (type : v.ty.Canonical) (keys : Dict.Sorted v.entries)
    (parts : ∀ p ∈ v.parts, Ascending p) : Ascending v

theorem WellFormed.ascending {v : Value} (wf : v.WellFormed) : v.Ascending := by
  induction v with
  | null t m => exact .intro wf.canonical .nil nofun
  | unknown t r m => exact .intro wf.canonical .nil nofun
  | scalar s m => exact .intro wf.canonical .nil nofun
  | sequence k es m ih =>
    refine .intro wf.canonical .nil ?_
    rw [parts_sequence]
    exact fun p hp => ih p hp (wf.elements p hp)
  | mapping k es m ih =>
    refine .intro wf.canonical wf.sorted ?_
    rw [parts_mapping]
    exact List.forall_mem_map.2 fun x hx => ih x hx (wf.entries x hx)

theorem mem_parts {v p : Value} {step : PathStep} (h : v.part? step = some p) : p ∈ v.parts := by
  cases step with
  | index i => exact List.mem_append_left _ (List.mem_of_getElem? h)
  | key k => exact List.mem_append_right _ (List.mem_map_of_mem (Dict.mem_of_lookup h))

section

variable {v p : Value} {t u s : Ty} {step : PathStep}

theorem step?_eq_some :
    v.step? t step = some (p, s) ↔
      ∃ u, conversionType v.ty t = some u ∧ v.part? step = some p ∧ u.part? step = some s := by
  simp [step?, Option.bind_eq_some_iff]

theorem step?_of_resolved (resolved : conversionType v.ty t = some u) (part : v.part? step = some p)
    (target : u.part? step = some s) : v.step? t step = some (p, s) :=
  step?_eq_some.2 ⟨u, resolved, part, target⟩

theorem Ascending.step? (ascending : v.Ascending) (canonical : t.Canonical)
    (h : v.step? t step = some (p, s)) : p.Ascending ∧ s.Canonical := by
  obtain ⟨u, resolved, part, target⟩ := step?_eq_some.1 h
  cases ascending with
  | intro type _ parts =>
    exact ⟨parts p (mem_parts part),
      Ty.canonical_part? (Ty.canonical_conversionType type canonical resolved) target⟩

theorem follow?_cons (h : v.step? t step = some (p, s)) (path : List PathStep) :
    v.follow? t (step :: path) = p.follow? s path := by
  rw [follow?, h]
  rfl

theorem follow?_concat {outer : List PathStep} (h : v.follow? t outer = some (p, s))
    (step : PathStep) : v.follow? t (outer ++ [step]) = p.step? s step := by
  induction outer generalizing v t with
  | nil =>
    cases h
    rw [List.nil_append, follow?]
    cases p.step? s step <;> rfl
  | cons first outer ih =>
    obtain ⟨next, there, rest⟩ := Option.bind_eq_some_iff.1 h
    rw [List.cons_append, follow?_cons there]
    exact ih rest

end

theorem within_eq_error {step : PathStep} {x : Converted} {e : ConversionError} :
    x.within step = .error e ↔ ∃ inner, x = .error inner ∧ e = inner.within step := by
  cases x <;> simp [Converted.within, eq_comm]

def Fits (v : Value) (t : Ty) (step : PathStep) : Prop :=
  ∃ p s w, v.step? t step = some (p, s) ∧ convert p s = .ok w

/-- The part at a step fails with the inner error and is the first to do so: the elements in front
    of it are there and convert, and so do the entries of smaller keys that the target asks for. -/
structure Misfit (v : Value) (t : Ty) (step : PathStep) (inner : ConversionError) : Prop where
  fails : ∃ p s, v.step? t step = some (p, s) ∧ convert p s = .error inner
  elements : ∀ i, step = .index i → ∀ j < i, Fits v t (.index j)
  entries : ∀ k, step = .key k → ∀ l < k, (v.step? t (.key l)).isSome → Fits v t (.key l)

theorem error_of_convertAll {vs : List Value} {i : Nat} {t : Ty} {e : ConversionError}
    (h : convertAll vs i t = .error e) :
    ∃ n p inner, vs[n]? = some p ∧ convert p t = .error inner ∧
      e = inner.within (.index (i + n)) ∧ ∀ j < n, ∃ q w, vs[j]? = some q ∧ convert q t = .ok w := by
  induction vs generalizing i with
  | nil => cases h
  | cons v vs ih =>
    simp only [convertAll, bind_eq_error, within_eq_error, within_eq_ok] at h
    rcases h with ⟨inner, fails, rfl⟩ | ⟨w, converts, rest | ⟨_, _, impossible⟩⟩
    · exact ⟨0, v, inner, rfl, fails, rfl, fun j hj => absurd hj (Nat.not_lt_zero j)⟩
    · obtain ⟨n, p, inner, place, fails, path, before⟩ := ih rest
      refine ⟨n + 1, p, inner, place, fails, ?_, ?_⟩
      · rw [path, Nat.add_assoc, Nat.add_comm 1 n]
      · intro j hj
        cases j with
        | zero => exact ⟨v, w, rfl, converts⟩
        | succ j => exact before j (Nat.lt_of_succ_lt_succ hj)
    · cases impossible

theorem error_of_convertEach {vs : List Value} {i : Nat} {ts : List Ty} {e : ConversionError}
    (h : convertEach vs i ts = .error e) :
    ∃ n p t inner, vs[n]? = some p ∧ ts[n]? = some t ∧ convert p t = .error inner ∧
      e = inner.within (.index (i + n)) ∧
      ∀ j < n, ∃ q u w, vs[j]? = some q ∧ ts[j]? = some u ∧ convert q u = .ok w := by
  induction vs generalizing i ts with
  | nil => cases h
  | cons v vs ih =>
    cases ts with
    | nil => cases h
    | cons t ts =>
      simp only [convertEach, bind_eq_error, within_eq_error, within_eq_ok] at h
      rcases h with ⟨inner, fails, rfl⟩ | ⟨w, converts, rest | ⟨_, _, impossible⟩⟩
      · exact ⟨0, v, t, inner, rfl, rfl, fails, rfl, fun j hj => absurd hj (Nat.not_lt_zero j)⟩
      · obtain ⟨n, p, u, inner, place, target, fails, path, before⟩ := ih rest
        refine ⟨n + 1, p, u, inner, place, target, fails, ?_, ?_⟩
        · rw [path, Nat.add_assoc, Nat.add_comm 1 n]
        · intro j hj
          cases j with
          | zero => exact ⟨v, t, w, rfl, rfl, converts⟩
          | succ j => exact before j (Nat.lt_of_succ_lt_succ hj)
      · cases impossible

theorem error_of_convertEntries {es : List (String × Value)} {t : Ty} {e : ConversionError}
    (h : convertEntries es t = .error e) :
    ∃ before x after inner, es = before ++ x :: after ∧ convert x.2 t = .error inner ∧
      e = inner.within (.key x.1) ∧ ∀ y ∈ before, ∃ w, convert y.2 t = .ok w := by
  induction es with
  | nil => cases h
  | cons x es ih =>
    simp only [convertEntries, bind_eq_error, within_eq_error, within_eq_ok] at h
    rcases h with ⟨inner, fails, rfl⟩ | ⟨w, converts, rest | ⟨_, _, impossible⟩⟩
    · exact ⟨[], x, es, inner, rfl, fails, rfl, List.forall_mem_nil _⟩
    · obtain ⟨before, y, after, inner, rfl, fails, path, front⟩ := ih rest
      exact ⟨x :: before, y, after, inner, rfl, fails, path,
        List.forall_mem_cons.2 ⟨⟨w, converts⟩, front⟩⟩
    · cases impossible

theorem error_of_convertAttrs {es : List (String × Value)} {attrs : List (String × Ty)}
    {e : ConversionError} (h : convertAttrs (converters es) attrs = .error e) :
    e.path = [] ∨ ∃ before a after p inner, attrs = before ++ a :: after ∧
      es.lookup a.1 = some p ∧ convert p a.2 = .error inner ∧ e = inner.within (.key a.1) ∧
      ∀ b ∈ before, ∃ q w, es.lookup b.1 = some q ∧ convert q b.2 = .ok w := by
  induction attrs with
  | nil => cases h
  | cons a attrs ih =>
    rw [convertAttrs, lookup_converters] at h
    cases found : es.lookup a.1 with
    | none =>
      rw [found] at h
      cases h
      exact .inl rfl
    | some p =>
      simp only [found, Option.map_some, bind_eq_error, within_eq_error, within_eq_ok] at h
      rcases h with ⟨inner, fails, rfl⟩ | ⟨w, converts, rest | ⟨_, _, impossible⟩⟩
      · exact .inr ⟨[], a, attrs, p, inner, rfl, found, fails, rfl, List.forall_mem_nil _⟩
      · refine (ih rest).imp_right ?_
        rintro ⟨before, b, after, q, inner, rfl, there, fails, path, front⟩
        exact ⟨a :: before, b, after, q, inner, rfl, there, fails, path,
          List.forall_mem_cons.2 ⟨⟨p, w, found, converts⟩, front⟩⟩
      · cases impossible

theorem path_of_convertScalar {s : Scalar} {t : Ty} {e : ConversionError}
    (h : convertScalar s t = .error e) : e.path = [] := by
  unfold convertScalar at h
  split at h
  case h_3 =>
    split at h
    · cases h
    · cases h
      rfl
  case h_4 =>
    split at h
    · cases h
    · split at h
      · cases h
      · cases h
        rfl
  case h_8 =>
    cases h
    rfl
  all_goals cases h

section

variable {m : MarkSet} {t u : Ty} {e : ConversionError}

theorem misfit_sequence {k : SequenceKind} {es : List Value}
    (resolved : conversionType (Value.ty (.sequence k es m)) t = some u)
    (h : convertTo u (.sequence k es m) = .error e) :
    e.path = [] ∨ ∃ step inner, e = inner.within step ∧ Misfit (.sequence k es m) t step inner := by
  have step : ∀ {j p s}, es[j]? = some p → u.part? (.index j) = some s →
      (Value.sequence k es m).step? t (.index j) = some (p, s) :=
    fun part target => step?_of_resolved resolved part target
  have all : ∀ {e' : Ty}, (∀ j, u.part? (.index j) = some e') →
      convertAll es 0 e' = .error e → ∃ step inner, e = inner.within step ∧
        Misfit (.sequence k es m) t step inner := by
    intro e' target failed
    obtain ⟨n, p, inner, place, fails, path, before⟩ := error_of_convertAll failed
    rw [Nat.zero_add] at path
    refine ⟨.index n, inner, path, ⟨p, e', step place (target n), fails⟩, ?_, by rintro _ ⟨⟩⟩
    rintro i ⟨⟩ j hj
    obtain ⟨q, w, there, converts⟩ := before j hj
    exact ⟨q, e', w, step there (target j), converts⟩
  cases u with
  | list e' =>
    simp only [convertTo, bind_eq_error] at h
    rcases h with failed | ⟨_, _, impossible⟩
    · exact .inr (all (fun _ => rfl) failed)
    · cases impossible
  | set e' =>
    simp only [convertTo, bind_eq_error] at h
    rcases h with failed | ⟨_, _, impossible⟩
    · exact .inr (all (fun _ => rfl) failed)
    · cases impossible
  | tuple ts =>
    simp only [convertTo] at h
    split at h
    · cases h
      exact .inl rfl
    · rcases bind_eq_error.1 h with failed | ⟨_, _, impossible⟩
      · obtain ⟨n, p, s, inner, place, target, fails, path, before⟩ := error_of_convertEach failed
        rw [Nat.zero_add] at path
        refine .inr ⟨.index n, inner, path, ⟨p, s, step place target, fails⟩, ?_,
          by rintro _ ⟨⟩⟩
        rintro i ⟨⟩ j hj
        obtain ⟨q, r, w, there, target, converts⟩ := before j hj
        exact ⟨q, r, w, step there target, converts⟩
      · cases impossible
  | _ =>
    cases h
    exact .inl rfl

theorem misfit_mapping {k : MappingKind} {es : List (String × Value)} (sorted : Dict.Sorted es)
    (canonical : u.Canonical) (resolved : conversionType (Value.ty (.mapping k es m)) t = some u)
    (h : convertTo u (.mapping k es m) = .error e) :
    e.path = [] ∨ ∃ step inner, e = inner.within step ∧ Misfit (.mapping k es m) t step inner := by
  have step : ∀ {l p s}, es.lookup l = some p → u.part? (.key l) = some s →
      (Value.mapping k es m).step? t (.key l) = some (p, s) :=
    fun part target => step?_of_resolved resolved part target
  have parts : ∀ {l p s}, (Value.mapping k es m).step? t (.key l) = some (p, s) →
      es.lookup l = some p ∧ u.part? (.key l) = some s := by
    intro l p s h
    obtain ⟨u', resolved', part, target⟩ := step?_eq_some.1 h
    cases resolved.symm.trans resolved'
    exact ⟨part, target⟩
  cases u with
  | map e' =>
    simp only [convertTo, bind_eq_error] at h
    rcases h with failed | ⟨_, _, impossible⟩
    · obtain ⟨before, x, after, inner, rfl, fails, path, front⟩ := error_of_convertEntries failed
      have found : ∀ y ∈ before ++ x :: after, List.lookup y.1 (before ++ x :: after) = some y.2 :=
        fun y hy => Dict.lookup_of_mem sorted hy
      have here := step (found x (by simp)) rfl
      refine .inr ⟨.key x.1, inner, path, ⟨x.2, e', here, fails⟩, by rintro _ ⟨⟩, ?_⟩
      rintro _ ⟨⟩ l less there
      obtain ⟨⟨p, s⟩, there⟩ := Option.isSome_iff_exists.1 there
      have mem := Dict.mem_of_lookup (parts there).1
      obtain ⟨w, converts⟩ := front (l, p) (Dict.mem_before sorted mem less)
      exact ⟨p, e', w, step (found (l, p) mem) rfl, converts⟩
    · cases impossible
  | object attrs =>
    simp only [convertTo] at h
    split at h
    · cases h
      exact .inl rfl
    · rcases bind_eq_error.1 h with failed | ⟨_, _, impossible⟩
      · refine (error_of_convertAttrs failed).imp_right ?_
        rintro ⟨before, a, after, p, inner, rfl, found, fails, path, front⟩
        have names : ∀ b ∈ before ++ a :: after, List.lookup b.1 (before ++ a :: after) = some b.2 :=
          fun b hb => Dict.lookup_of_mem canonical.1 hb
        have here := step found (names a (by simp))
        refine ⟨.key a.1, inner, path, ⟨p, a.2, here, fails⟩, by rintro _ ⟨⟩, ?_⟩
        rintro _ ⟨⟩ l less there
        obtain ⟨⟨q, s⟩, there⟩ := Option.isSome_iff_exists.1 there
        have mem := Dict.mem_of_lookup (parts there).2
        obtain ⟨q, w, there, converts⟩ := front (l, s) (Dict.mem_before canonical.1 mem less)
        exact ⟨q, s, w, step there (names (l, s) mem), converts⟩
      · cases impossible
  | _ =>
    cases h
    exact .inl rfl

end

/-- A value that does not convert is at fault itself or through the first part at fault. -/
theorem misfit_of_error {v : Value} {t : Ty} {e : ConversionError} (ascending : v.Ascending)
    (canonical : t.Canonical) (h : convert v t = .error e) :
    e.path = [] ∨ ∃ step inner, e = inner.within step ∧ Misfit v t step inner := by
  have differ : ¬ (t = .dynamic ∨ v.ty = t) := by
    intro same
    rw [convert_of_same same] at h
    cases h
  rw [convert_of_ne differ] at h
  cases resolved : conversionType v.ty t with
  | none =>
    rw [resolved] at h
    cases h
    exact .inl rfl
  | some u =>
    simp only [resolved] at h
    cases v with
    | null s m => cases h
    | unknown s r m => cases h
    | scalar s m =>
      simp only [convertTo, bind_eq_error] at h
      rcases h with failed | ⟨_, _, impossible⟩
      · exact .inl (path_of_convertScalar failed)
      · cases impossible
    | sequence k es m => exact misfit_sequence resolved h
    | mapping k es m =>
      cases ascending with
      | intro type keys _ =>
        exact misfit_mapping keys (Ty.canonical_conversionType type canonical resolved) resolved h

/-- The path of an error leads to what is at fault itself, and at each step of it the part at this
    step is the first misfit. -/
theorem misfits_of_error {v : Value} {t : Ty} {path : List PathStep} {fault : ConversionFault}
    (ascending : v.Ascending) (canonical : t.Canonical) (h : convert v t = .error ⟨path, fault⟩) :
    (∃ u s, v.follow? t path = some (u, s) ∧ convert u s = .error ⟨[], fault⟩) ∧
      ∀ outer step inner, path = outer ++ step :: inner →
        ∃ u s, v.follow? t outer = some (u, s) ∧ Misfit u s step ⟨inner, fault⟩ := by
  induction path generalizing v t with
  | nil =>
    refine ⟨⟨v, t, rfl, h⟩, ?_⟩
    intro outer step inner split
    simp at split
  | cons first path ih =>
    rcases misfit_of_error ascending canonical h with none | ⟨step, ⟨_, _⟩, same, misfit⟩
    · cases none
    · simp only [ConversionError.within, ConversionError.mk.injEq, List.cons.injEq] at same
      obtain ⟨⟨rfl, rfl⟩, rfl⟩ := same
      obtain ⟨p, s, there, fails⟩ := misfit.fails
      obtain ⟨ascends, narrows⟩ := ascending.step? canonical there
      obtain ⟨ends, steps⟩ := ih ascends narrows fails
      refine ⟨by rwa [follow?_cons there], ?_⟩
      intro outer step inner split
      cases outer with
      | nil =>
        cases split
        exact ⟨v, t, rfl, misfit⟩
      | cons outermost outer =>
        cases split
        rw [follow?_cons there]
        exact steps outer step inner rfl

/-- The path of an error leads to the place where the conversion fails: what is there fails with the
    same fault and no further path. In front of each step of the path everything converts. -/
theorem convert_error_located {v : Value} {t : Ty} {e : ConversionError} (ascending : v.Ascending)
    (canonical : t.Canonical) (h : convert v t = .error e) :
    (∃ u s, v.follow? t e.path = some (u, s) ∧ convert u s = .error ⟨[], e.fault⟩) ∧
      (∀ outer i inner, e.path = outer ++ .index i :: inner → ∀ j < i,
        ∃ p s w, v.follow? t (outer ++ [.index j]) = some (p, s) ∧ convert p s = .ok w) ∧
      ∀ outer k inner, e.path = outer ++ .key k :: inner → ∀ l < k, ∀ p s,
        v.follow? t (outer ++ [.key l]) = some (p, s) → ∃ w, convert p s = .ok w := by
  obtain ⟨ends, steps⟩ := misfits_of_error ascending canonical h
  refine ⟨ends, ?_, ?_⟩
  · intro outer i inner split j hj
    obtain ⟨u, r, there, misfit⟩ := steps outer (.index i) inner split
    obtain ⟨p, s, w, next, converts⟩ := misfit.elements i rfl j hj
    exact ⟨p, s, w, (follow?_concat there _).trans next, converts⟩
  · intro outer k inner split l hl p s found
    obtain ⟨u, r, there, misfit⟩ := steps outer (.key k) inner split
    rw [follow?_concat there] at found
    obtain ⟨p', s', w, next, converts⟩ := misfit.entries k rfl l hl (by simp [found])
    cases found.symm.trans next
    exact ⟨w, converts⟩

def switchRows : Value :=
  object [("north", tuple [string "yes", bool false]),
    ("south", tuple [string "true", string "maybe", bool true])]

def switchColumns : Ty := .object [("north", .set .dynamic), ("south", .list .bool)]

/-- The second switch of the second row is at fault; the one in front of it and
    the first row are not. -/
theorem switchRows_error_located :
    switchRows.Ascending ∧ switchColumns.Canonical ∧
      convert switchRows switchColumns = .error ⟨[.key "south", .index 1], .invalidBool⟩ ∧
      (∃ u s, switchRows.follow? switchColumns [.key "south", .index 1] = some (u, s) ∧
        convert u s = .error ⟨[], .invalidBool⟩) ∧
      (∃ p s w, switchRows.follow? switchColumns [.key "south", .index 0] = some (p, s) ∧
        convert p s = .ok w) ∧
      ∃ w, convert (tuple [string "yes", bool false]) (.set .string) = .ok w := by
  have ascending : switchRows.Ascending := by
    refine WellFormed.ascending (.object (Dict.sorted_ofList _) (List.forall_mem_cons.2
      ⟨.tuple ?_, List.forall_mem_singleton.2 (.tuple ?_)⟩)) <;>
    simp [string, bool, WellFormed.scalar]
  have canonical : switchColumns.Canonical :=
    ⟨List.pairwise_pair.2 (by decide), trivial, trivial, trivial⟩
  have fails : convert switchRows switchColumns =
      .error ⟨[.key "south", .index 1], .invalidBool⟩ := by
    with_unfolding_all rfl
  have found : switchRows.follow? switchColumns [.key "north"] =
      some (tuple [string "yes", bool false], .set .string) := by
    with_unfolding_all rfl
  obtain ⟨ends, elements, entries⟩ := convert_error_located ascending canonical fails
  refine ⟨ascending, canonical, fails, ends, elements [.key "south"] 1 [] rfl 0 (by decide), ?_⟩
  exact entries [] "south" [.index 1] rfl "north" (by decide) _ _ found

end Value

end MarkedValues
