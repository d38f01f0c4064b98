import MarkedValues.Regex.Search

/-!
Every match covers group zero. A compiled pattern is entered at the note of where the match begins
and left through the note of where it ends, which alone leads to the instruction that accepts; so a
thread has noted its beginning once it is past the entry, and its end once it accepts.
-/
namespace MarkedValues.Regex

/-- An instruction in front of the end: it does not accept and does not lead there. -/
def Instruction.Inner : Instruction → Prop
  | .accept => False
  | .one _ next | .assert _ next | .note _ next => next ≠ 0
  | .fork first second => first ≠ 0 ∧ second ≠ 0

/-- The second program is the first with inner instructions behind it. -/
structure Grows (p q : Program) : Prop where
  size : p.size ≤ q.size
  kept : ∀ l < p.size, q[l]? = p[l]?
  inner : ∀ l i, p.size ≤ l → q[l]? = some i → i.Inner

theorem Grows.refl (p : Program) : Grows p p where
  size := Nat.le_refl _
  kept _ _ := rfl
  inner l i hl hi := by
    rw [Array.getElem?_eq_none hl] at hi
    cases hi

theorem Grows.trans {p q r : Program} (h : Grows p q) (g : Grows q r) : Grows p r where
  size := Nat.le_trans h.size g.size
  kept l hl := (g.kept l (Nat.lt_of_lt_of_le hl h.size)).trans (h.kept l hl)
  inner l i hl hi := by
    by_cases old : l < q.size
    · rw [g.kept l old] at hi
      exact h.inner l i hl hi
    · exact g.inner l i (Nat.le_of_not_lt old) hi

theorem grows_push {i : Instruction} (inner : i.Inner) (p : Program) : Grows p (p.push i) where
  size := by simp
  kept l hl := by rw [Array.getElem?_push, if_neg (Nat.ne_of_lt hl)]
  inner l j hl hj := by
    rw [Array.getElem?_push] at hj
    split at hj
    · cases hj
      exact inner
    · rw [Array.getElem?_eq_none hl] at hj
      cases hj

/-- A compilation step adds inner instructions and is entered in front of the end,
    when it goes on there. -/
def Adds (step : Code → Code) : Prop :=
  ∀ code : Code, 0 < code.1.size → code.2 ≠ 0 →
    Grows code.1 (step code).1 ∧ (step code).2 ≠ 0

theorem adds_emit {i : Label → Instruction} (inner : ∀ next, next ≠ 0 → (i next).Inner) :
    Adds fun code => emit (i code.2) code.1 := by
  intro code pos next
  exact ⟨grows_push (inner _ next) _, Nat.ne_of_gt pos⟩

theorem inner_forkTo {on leave : Label} (greedy : Bool) (hon : on ≠ 0) (hleave : leave ≠ 0) :
    (forkTo greedy on leave).Inner := by
  cases greedy
  · exact ⟨hleave, hon⟩
  · exact ⟨hon, hleave⟩

variable {step body : Code → Code}

theorem adds_emitTimes (adds : Adds step) (n : Nat) : Adds (emitTimes step n) := by
  induction n with
  | zero => exact fun code _ next => ⟨.refl _, next⟩
  | succ n ih =>
    intro code pos next
    obtain ⟨grown, entry⟩ := adds code pos next
    obtain ⟨grown', entry'⟩ := ih (step code) (Nat.lt_of_lt_of_le pos grown.size) entry
    exact ⟨grown.trans grown', entry'⟩

theorem adds_emitOptional (greedy : Bool) (adds : Adds body) {code : Code} (pos : 0 < code.1.size)
    (next : code.2 ≠ 0) (n : Nat) :
    Grows code.1 (emitOptional greedy body code.2 n code).1 ∧
      (emitOptional greedy body code.2 n code).2 ≠ 0 := by
  induction n with
  | zero => exact ⟨.refl _, next⟩
  | succ n ih =>
    have pos' := Nat.lt_of_lt_of_le pos ih.1.size
    obtain ⟨grown, entry⟩ := adds _ pos' ih.2
    have last := grows_push (inner_forkTo greedy entry next)
      (body (emitOptional greedy body code.2 n code)).1
    exact ⟨(ih.1.trans grown).trans last,
      Nat.ne_of_gt (Nat.lt_of_lt_of_le pos' grown.size)⟩

/-- The fork of a loop takes the place kept for it. -/
theorem adds_emitLoop (greedy : Bool) (adds : Adds body) : Adds (emitLoop greedy body) := by
  intro code pos next
  obtain ⟨program, leave⟩ := code
  have held : 0 < (program.push .accept).size := by simp
  obtain ⟨grown, entry⟩ := adds (program.push .accept, program.size) held (Nat.ne_of_gt pos)
  refine ⟨?_, entry⟩
  constructor
  · have size := grown.size
    simp only [Array.size_push] at size
    simp only [emitLoop, emit, Array.size_setIfInBounds]
    exact Nat.le_of_succ_le size
  · intro l hl
    have hne : program.size ≠ l := Nat.ne_of_gt hl
    have before : l < (program.push .accept).size := by
      rw [Array.size_push]
      exact Nat.lt_succ_of_lt hl
    simp only [emitLoop, emit, Array.getElem?_setIfInBounds, if_neg hne]
    rw [grown.kept l before, Array.getElem?_push, if_neg hne.symm]
  · intro l i hl hi
    simp only [emitLoop, emit, Array.getElem?_setIfInBounds] at hi
    split at hi
    · split at hi
      · cases hi
        exact inner_forkTo greedy entry next
      · cases hi
    · next hne =>
      refine grown.inner l i ?_ hi
      rw [Array.size_push]
      exact Nat.lt_of_le_of_ne hl hne

theorem adds_compileBefore (p : Pattern) : Adds p.compileBefore := by
  induction p with
  | empty => exact fun code _ next => ⟨.refl _, next⟩
  | one cls => exact adds_emit (i := .one cls) fun _ h => h
  | assert a => exact adds_emit (i := .assert a) fun _ h => h
  | cat p q ihp ihq =>
    intro code pos next
    obtain ⟨grown, entry⟩ := ihq code pos next
    obtain ⟨grown', entry'⟩ := ihp _ (Nat.lt_of_lt_of_le pos grown.size) entry
    exact ⟨grown.trans grown', entry'⟩
  | alt p q ihp ihq =>
    intro code pos next
    obtain ⟨grown, second⟩ := ihq code pos next
    have pos' := Nat.lt_of_lt_of_le pos grown.size
    obtain ⟨grown', first⟩ := ihp ((q.compileBefore code).1, code.2) pos' next
    have fork : (Instruction.fork _ _).Inner := ⟨first, second⟩
    exact ⟨(grown.trans grown').trans (grows_push fork _),
      Nat.ne_of_gt (Nat.lt_of_lt_of_le pos' grown'.size)⟩
  | group i name p ih =>
    intro code pos next
    obtain ⟨grown, stop⟩ := adds_emit (i := .note (2 * i + 1)) (fun _ h => h) code pos next
    have pos' := Nat.lt_of_lt_of_le pos grown.size
    obtain ⟨grown', start⟩ := ih _ pos' stop
    obtain ⟨last, entry⟩ := adds_emit (i := .note (2 * i)) (fun _ h => h) _
      (Nat.lt_of_lt_of_le pos' grown'.size) start
    exact ⟨(grown.trans grown').trans last, entry⟩
  | «repeat» min max greedy p ih =>
    intro code pos next
    cases max with
    | some max =>
      obtain ⟨grown, entry⟩ := adds_emitOptional greedy ih pos next (max - min)
      obtain ⟨grown', entry'⟩ :=
        adds_emitTimes ih min _ (Nat.lt_of_lt_of_le pos grown.size) entry
      exact ⟨grown.trans grown', entry'⟩
    | none =>
      obtain ⟨grown, entry⟩ := adds_emitLoop greedy ih code pos next
      have pos' := Nat.lt_of_lt_of_le pos grown.size
      cases min with
      | zero =>
        exact ⟨grown.trans (grows_push (inner_forkTo greedy entry next) _), Nat.ne_of_gt pos'⟩
      | succ n =>
        obtain ⟨grown', entry'⟩ := adds_emitTimes ih n _ pos' entry
        exact ⟨grown.trans grown', entry'⟩

/-- A program of a whole pattern: the entry notes where the match begins, only a note of where it
    ends leads to the end, and only the end accepts. -/
structure Framed (program : Program) (entry : Label) : Prop where
  enters : ∃ next, program[entry]? = some (.note 0 next)
  start : entry ≠ 0
  accepts : ∀ l, program[l]? = some .accept → l = 0
  ends : ∀ (l : Label) (i : Instruction), program[l]? = some i → i.Inner ∨ i = .accept ∨ i = .note 1 0

theorem framed_emit {program : Program} {start : Label}
    (grown : Grows #[.accept, .note 1 0] program) (behind : start ≠ 0) :
    Framed (emit (.note 0 start) program).1 (emit (.note 0 start) program).2 := by
  have size : 2 ≤ program.size := grown.size
  have last := grown.trans (grows_push (i := .note 0 start) behind program)
  have each : ∀ l i, (program.push (.note 0 start))[l]? = some i →
      i.Inner ∨ (l = 0 ∧ i = .accept) ∨ i = .note 1 0 := by
    intro l i hi
    by_cases old : l < 2
    · rw [last.kept l old] at hi
      rcases (by omega : l = 0 ∨ l = 1) with rfl | rfl
      · cases hi
        exact .inr (.inl ⟨rfl, rfl⟩)
      · cases hi
        exact .inr (.inr rfl)
    · exact .inl (last.inner l i (Nat.le_of_not_lt old) hi)
  refine ⟨⟨start, Array.getElem?_push_size⟩, ?_, fun l hl => ?_, fun l i hi => ?_⟩
  · exact Nat.ne_of_gt (Nat.lt_of_lt_of_le (by decide) size)
  · rcases each l _ hl with inner | ⟨here, _⟩ | other
    · cases inner
    · exact here
    · cases other
  · rcases each l i hi with inner | ⟨_, accept⟩ | note
    · exact .inl inner
    · exact .inr (.inl accept)
    · exact .inr (.inr note)

theorem framed_compile (p : Pattern) : Framed p.compile.1 p.compile.2 := by
  obtain ⟨grown, behind⟩ := adds_compileBefore p (#[.accept, .note 1 0], 1) (by simp) (by simp)
  exact framed_emit grown behind

/-- The slot holds a position. -/
def Slots.Noted (slots : Slots) (k : Nat) : Prop := ∃ x, slots[k]? = some (some x)

theorem Slots.Noted.set {slots : Slots} {k : Nat} (h : slots.Noted k) (slot position : Nat) :
    Slots.Noted (slots.setIfInBounds slot (some position)) k := by
  obtain ⟨x, hx⟩ := h
  unfold Slots.Noted
  rw [Array.getElem?_setIfInBounds]
  split
  · next here =>
    subst here
    have inside : slot < slots.size := (Array.getElem?_eq_some_iff.1 hx).1
    exact ⟨position, by rw [if_pos inside]⟩
  · exact ⟨x, hx⟩

theorem noted_set {slots : Slots} {k : Nat} (inside : k < slots.size) (position : Nat) :
    Slots.Noted (slots.setIfInBounds k (some position)) k :=
  ⟨position, by simp [inside]⟩

/-- What a thread has noted when it comes to a label. -/
structure OnTrack (entry label : Label) (slots : Slots) : Prop where
  room : 2 ≤ slots.size
  begun : label ≠ entry → slots.Noted 0
  ended : label = 0 → slots.Noted 1

def Front.OnTrack (entry : Label) (front : Front) : Prop :=
  ∀ t ∈ front.threads, Regex.OnTrack entry t.label t.slots

variable {program : Program} {entry : Label}

/-- An inner instruction behind the entry leads on. -/
theorem OnTrack.next {label next : Label} {slots : Slots} (h : OnTrack entry label slots)
    (past : label ≠ entry) (inner : next ≠ 0) : OnTrack entry next slots where
  room := h.room
  begun _ := h.begun past
  ended last := absurd last inner

theorem OnTrack.note {label next : Label} {slots : Slots} (framed : Framed program entry)
    (h : OnTrack entry label slots) {slot : Nat} (here : program[label]? = some (.note slot next))
    (position : Nat) : OnTrack entry next (slots.setIfInBounds slot (some position)) where
  room := by simpa using h.room
  begun _ := by
    by_cases first : label = entry
    · obtain ⟨next', atEntry⟩ := framed.enters
      rw [← first, here] at atEntry
      cases atEntry
      exact noted_set (Nat.lt_of_lt_of_le (by decide) h.room) position
    · exact (h.begun first).set slot position
  ended last := by
    rcases framed.ends label _ here with inner | accept | note
    · exact absurd last inner
    · cases accept
    · cases note
      exact noted_set (Nat.lt_of_lt_of_le (by decide) h.room) position

theorem past_of_ne_note (framed : Framed program entry) {label : Label} {i : Instruction}
    (here : program[label]? = some i) (other : ∀ next, i ≠ .note 0 next) : label ≠ entry := by
  rintro rfl
  obtain ⟨next, atEntry⟩ := framed.enters
  rw [here] at atEntry
  exact other next (Option.some.inj atEntry)

theorem inner_of_framed (framed : Framed program entry) {label : Label} {i : Instruction}
    (here : program[label]? = some i) (accept : i ≠ .accept) (note : i ≠ .note 1 0) : i.Inner := by
  rcases framed.ends label i here with inner | rfl | rfl
  · exact inner
  · exact absurd rfl accept
  · exact absurd rfl note

theorem onTrack_follow (framed : Framed program entry) (place : Place) {depth : Nat}
    {label : Label} {slots : Slots} {front : Front} (h : OnTrack entry label slots)
    (hfront : front.OnTrack entry) :
    (follow program place depth label slots front).OnTrack entry := by
  induction depth generalizing label slots front with
  | zero => exact hfront
  | succ depth ih =>
    rw [follow]
    split
    · exact hfront
    · split
      · exact hfront
      · intro t ht
        rcases Array.mem_push.1 ht with ht | rfl
        · exact hfront t ht
        · exact h
      · intro t ht
        rcases Array.mem_push.1 ht with ht | rfl
        · exact hfront t ht
        · exact h
      · next a next here =>
        have past := past_of_ne_note framed here (by simp)
        have inner : next ≠ 0 := inner_of_framed framed here (by simp) (by simp)
        split
        · exact ih (h.next past inner) hfront
        · exact hfront
      · next slot next here => exact ih (h.note framed here place.position) hfront
      · next first second here =>
        have past := past_of_ne_note framed here (by simp)
        have inner : first ≠ 0 ∧ second ≠ 0 := inner_of_framed framed here (by simp) (by simp)
        exact ih (h.next past inner.2) (ih (h.next past inner.1) hfront)

/-- The beginning and the end of the match are noted. -/
def Slots.Whole (slots : Slots) : Prop := slots.Noted 0 ∧ slots.Noted 1

theorem onTrack_advance (framed : Framed program entry) (c : Option Char) (place : Place)
    {threads : List Thread} {front : Front}
    (h : ∀ t ∈ threads, OnTrack entry t.label t.slots) (hfront : front.OnTrack entry) :
    (∀ slots, (advance program c place threads front).1 = some slots → slots.Whole) ∧
      (advance program c place threads front).2.OnTrack entry := by
  induction threads generalizing front with
  | nil =>
    refine ⟨fun slots found => ?_, hfront⟩
    cases found
  | cons t ts ih =>
    have here := h t (by simp)
    have rest := fun u hu => h u (List.mem_cons_of_mem t hu)
    rw [advance]
    split
    · next accept =>
      have last := framed.accepts t.label accept
      refine ⟨fun slots found => ?_, hfront⟩
      cases found
      exact ⟨here.begun (past_of_ne_note framed accept (by simp)), here.ended last⟩
    · next cls next one =>
      have past := past_of_ne_note framed one (by simp)
      have inner : next ≠ 0 := inner_of_framed framed one (by simp) (by simp)
      refine ih rest ?_
      split
      · exact onTrack_follow framed place (here.next past inner) hfront
      · exact hfront
    · exact ih rest hfront

theorem onTrack_start (program : Program) : (Front.start program).OnTrack entry := by
  intro t ht
  simp [Front.start] at ht

theorem whole_run (framed : Framed program entry) {slots : Slots} (h : OnTrack entry entry slots)
    {text : List Char} {position : Nat} {before : Option Char} {found : Option Slots}
    {front : Front} (hfound : ∀ s, found = some s → s.Whole) (hfront : front.OnTrack entry)
    {s : Slots} (hs : run program entry slots text position before found front = some s) :
    s.Whole := by
  induction text generalizing position before found front with
  | nil =>
    rw [run] at hs
    rcases Option.or_eq_some_iff.1 hs with now | ⟨_, earlier⟩
    · refine (onTrack_advance framed _ _ (fun t ht => ?_) (onTrack_start program)).1 s now
      split at ht
      · exact hfront t (Array.mem_toList_iff.1 ht)
      · exact onTrack_follow framed _ h hfront t (Array.mem_toList_iff.1 ht)
    · exact hfound s earlier
  | cons c rest ih =>
    have started : ∀ place, Front.OnTrack entry (if found.isSome then front
        else followFrom program place entry slots front) := by
      intro place
      split
      · exact hfront
      · exact onTrack_follow framed place h hfront
    rw [run] at hs
    dsimp only at hs
    have threads := started ⟨position, before, (c :: rest).head?⟩
    generalize (if found.isSome then front else followFrom program ⟨position, before,
      (c :: rest).head?⟩ entry slots front) = front at hs threads
    split at hs
    · exact hfound s hs
    · have step := onTrack_advance framed (some c) ⟨position + 1, some c, rest.head?⟩
        (fun t ht => threads t (Array.mem_toList_iff.1 ht)) (onTrack_start program)
      refine ih (fun s hs => ?_) step.2 hs
      rcases Option.or_eq_some_iff.1 hs with now | ⟨_, earlier⟩
      · exact step.1 s now
      · exact hfound s earlier

/-- A match says what it covers. -/
theorem group?_zero {p : Pattern} {text : List Char} {start : Nat} {m : Match}
    (h : (Matcher.ofPattern p).findFrom text start = some m) (whole : List Char) :
    ∃ cs, m.group? whole 0 = some cs := by
  unfold Matcher.findFrom at h
  split at h
  · cases h
  · obtain ⟨s, hs, rfl⟩ := Option.map_eq_some_iff.1 h
    have framed := framed_compile p
    have fresh : OnTrack p.compile.2 p.compile.2
        (Array.replicate (2 * (p.groupCount + 1)) none) := by
      refine ⟨?_, fun ne => absurd rfl ne, fun zero => absurd zero framed.start⟩
      rw [Array.size_replicate]
      omega
    obtain ⟨⟨i, hi⟩, ⟨j, hj⟩⟩ :=
      whole_run framed fresh (fun _ none => by cases none) (onTrack_start _) hs
    exact ⟨(whole.take j).drop i, by simp [Match.group?, Match.span?, hi, hj]⟩

end MarkedValues.Regex
