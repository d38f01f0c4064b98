import Mathlib.Data.Nat.Bitwise
import MarkedValues.Proofs.Net.Reading
import MarkedValues.Proofs.Net.Words
import MarkedValues.Proofs.Text.Digits

/-!
Reading undoes writing. The text of an address names that address, in its own family also where it
is a mapped one, and the text of a block names that block.
-/
namespace MarkedValues.Net

open Text (numberOf Stops stops_nil stops_cons span_toDigits)

theorem shiftRight_join (n bits k : Nat) :
    n >>> (bits * (k + 1)) * 2 ^ bits + n >>> (bits * k) % 2 ^ bits = n >>> (bits * k) := by
  rw [Nat.mul_succ, Nat.shiftRight_add, Nat.shiftRight_eq_div_pow _ bits]
  exact Nat.div_add_mod' ..

section

variable {rest : List Char}

theorem readPart_toDigits {n : Nat} (small : n < 256) (stops : Stops 10 rest) :
    readPart (Nat.toDigits 10 n ++ rest) = some (n, rest) := by
  have span := span_toDigits (by decide) (by decide) stops n
  have short : (Nat.toDigits 10 n).length ≤ 3 :=
    (Nat.length_toDigits_le_iff (by decide) (by decide)).2 (by omega)
  have plain : ¬ ((Nat.toDigits 10 n).head? = some '0' ∧ 1 < (Nat.toDigits 10 n).length) := by
    rintro ⟨zero, long⟩
    rw [Text.eq_zero_of_head?_toDigits (by decide) zero] at long
    exact absurd long (by decide)
  rw [readPart]
  simp only [span, @Text.numberOf_toDigits 10 (by decide) (by decide)]
  rw [if_neg, if_neg]
  · simpa using plain
  · simp only [Bool.or_eq_true, List.isEmpty_iff, decide_eq_true_eq, not_or, Nat.not_lt, Nat.not_le]
    exact ⟨⟨Nat.toDigits_ne_nil, short⟩, small⟩

theorem mem_of_readChar {c : Char} {cs : List Char} (h : readChar c cs = some rest) : c ∈ cs := by
  cases cs with
  | nil => cases h
  | cons d cs =>
    rw [readChar] at h
    split at h
    · next same => exact same ▸ List.mem_cons_self
    · cases h

theorem readV4_eq_none {cs : List Char} (dotless : '.' ∉ cs) : readV4 cs = none := by
  cases read : readV4 cs with
  | none => rfl
  | some x =>
    simp only [readV4, bind, Option.bind_eq_some_iff] at read
    obtain ⟨⟨a, ds⟩, part, es, dot, _⟩ := read
    obtain ⟨passed, _, rfl⟩ := behind_readPart part
    exact absurd (List.mem_append_right passed (mem_of_readChar dot)) dotless

theorem readV4_textV4 {n : Nat} (h : n < Family.v4.size) : readV4 (textV4 n) = some (n, []) := by
  have size : n < 4294967296 := h
  have dot : ∀ cs, Stops 10 ('.' :: cs) := fun cs => stops_cons rfl
  have part : ∀ k cs, Stops 10 cs →
      readPart (Nat.toDigits 10 (n >>> (8 * k) % 256) ++ cs) = some (n >>> (8 * k) % 256, cs) :=
    fun k cs stops => readPart_toDigits (Nat.mod_lt _ (by decide)) stops
  have last := part 0 [] (stops_nil 10)
  rw [List.append_nil] at last
  have whole : ((n >>> (8 * 3) % 256 * 256 + n >>> (8 * 2) % 256) * 256 + n >>> (8 * 1) % 256) * 256 +
      n >>> (8 * 0) % 256 = n := by
    have join : ∀ k, n >>> (8 * (k + 1)) * 256 + n >>> (8 * k) % 256 = n >>> (8 * k) :=
      shiftRight_join n 8
    have top : n >>> (8 * 3) % 256 = n >>> (8 * 3) :=
      Nat.mod_eq_of_lt (by rw [Nat.shiftRight_eq_div_pow]; exact Nat.div_lt_of_lt_mul size)
    rw [top, join 2, join 1, join 0]
    rfl
  simp only [textV4, List.append_assoc, List.cons_append, readV4, part 3 _ (dot _), part 2 _ (dot _),
    part 1 _ (dot _), last, readChar, if_true, bind, Option.bind, whole]

end

theorem readGroup_toDigits {g : Nat} {rest : List Char} (small : g < 65536) (stops : Stops 16 rest) :
    readGroup (Nat.toDigits 16 g ++ rest) = some (g, rest) := by
  have span := span_toDigits (by decide) (by decide) stops g
  have short : (Nat.toDigits 16 g).length ≤ 4 :=
    (Nat.length_toDigits_le_iff (by decide) (by decide)).2 (by omega)
  rw [readGroup]
  simp only [span, @Text.numberOf_toDigits 16 (by decide) (by decide)]
  rw [if_neg]
  simp only [Bool.or_eq_true, List.isEmpty_iff, decide_eq_true_eq, not_or, Nat.not_lt]
  exact ⟨Nat.toDigits_ne_nil, short⟩

section

variable {first : Bool} {limit : Nat} {cs ds rest : List Char}
  (start : (if first then some cs else readChar ':' cs) = some ds)

include start

theorem readGroups_group {g : Nat} (four : readV4 ds = none) (group : readGroup ds = some (g, rest)) :
    readGroups first (limit + 1) cs =
      (g :: (readGroups false limit rest).1, (readGroups false limit rest).2) := by
  rw [readGroups]
  simp only [start, Option.bind_some, four, ite_self, group]

theorem readGroups_v4 {n : Nat} (room : limit ≠ 0) (four : readV4 ds = some (n, rest)) :
    readGroups first (limit + 1) cs = ([n / 65536, n % 65536], true, rest) := by
  rw [readGroups]
  simp only [start, Option.bind_some, if_neg room, four]

end

def colonGroups (gs : List Nat) : List Char := gs.flatMap fun g => ':' :: Nat.toDigits 16 g

theorem textGroups_cons (g : Nat) (gs : List Nat) :
    textGroups (g :: gs) = Nat.toDigits 16 g ++ colonGroups gs := by
  induction gs generalizing g with
  | nil => simp [textGroups, colonGroups]
  | cons h gs ih =>
    have tail := ih h
    simp only [textGroups, List.map_cons, List.intercalate_cons_cons] at tail ⊢
    rw [tail]
    simp [colonGroups]

theorem dot_not_mem_toDigits (g : Nat) : '.' ∉ Nat.toDigits 16 g := fun mem => by
  have digit := @Text.isDigitOf_of_mem_toDigits 16 (by decide) (by decide) _ _ mem
  cases digit

theorem dot_not_mem_colonGroups (gs : List Nat) : '.' ∉ colonGroups gs := by
  simp [colonGroups, dot_not_mem_toDigits]

/-- Where a run of groups ends: at the end of the text or at two colons. -/
def Ends (rest : List Char) : Prop := rest = [] ∨ ∃ back, rest = ':' :: ':' :: back

section

variable {rest : List Char} (ends : Ends rest) (dotless : '.' ∉ rest)

include ends

theorem stops_of_ends : Stops 16 rest := by
  rcases ends with rfl | ⟨back, rfl⟩
  · exact stops_nil 16
  · exact stops_cons rfl

theorem stops_colonGroups (gs : List Nat) : Stops 16 (colonGroups gs ++ rest) := by
  cases gs with
  | nil => exact stops_of_ends ends
  | cons g gs => exact stops_cons rfl

theorem readGroups_ends (first : Bool) (limit : Nat) :
    readGroups first limit rest = ([], false, rest) := by
  cases limit with
  | zero => rfl
  | succ limit =>
    rcases ends with rfl | ⟨back, rfl⟩
    · cases first <;> cases limit <;> rfl
    · cases first <;> cases limit <;> rfl

include dotless

theorem readGroups_step (first : Bool) (limit : Nat) {g : Nat} {gs : List Nat} {cs : List Char}
    (start : (if first then some cs else readChar ':' cs) =
      some (Nat.toDigits 16 g ++ (colonGroups gs ++ rest)))
    (small : g < 65536) :
    readGroups first (limit + 1) cs =
      (g :: (readGroups false limit (colonGroups gs ++ rest)).1,
        (readGroups false limit (colonGroups gs ++ rest)).2) := by
  have four : readV4 (Nat.toDigits 16 g ++ (colonGroups gs ++ rest)) = none := by
    refine readV4_eq_none fun mem => ?_
    rcases List.mem_append.1 mem with digits | mem
    · exact dot_not_mem_toDigits g digits
    · rcases List.mem_append.1 mem with groups | behind
      · exact dot_not_mem_colonGroups gs groups
      · exact dotless behind
  exact readGroups_group start four (readGroup_toDigits small (stops_colonGroups ends gs))

theorem readGroups_colonGroups {gs : List Nat} (small : ∀ g ∈ gs, g < 65536) {limit : Nat}
    (fits : gs.length ≤ limit) :
    readGroups false limit (colonGroups gs ++ rest) = (gs, false, rest) := by
  induction gs generalizing limit with
  | nil => exact readGroups_ends ends false limit
  | cons g gs ih =>
    obtain ⟨limit, rfl⟩ : ∃ l, limit = l + 1 := Nat.exists_eq_add_one.2 (by simp at fits; omega)
    have later := ih (fun g hg => small g (by simp [hg])) (Nat.le_of_succ_le_succ fits)
    have start : (if false then some (colonGroups (g :: gs) ++ rest)
        else readChar ':' (colonGroups (g :: gs) ++ rest)) =
          some (Nat.toDigits 16 g ++ (colonGroups gs ++ rest)) := by simp [colonGroups, readChar]
    rw [readGroups_step ends dotless false limit start (small g (by simp)), later]

/-- Groups are read as they were written, up to where their run ends. -/
theorem readGroups_textGroups {gs : List Nat} (small : ∀ g ∈ gs, g < 65536) {limit : Nat}
    (fits : gs.length ≤ limit) :
    readGroups true limit (textGroups gs ++ rest) = (gs, false, rest) := by
  cases gs with
  | nil => exact readGroups_ends ends true limit
  | cons g gs =>
    obtain ⟨limit, rfl⟩ : ∃ l, limit = l + 1 := Nat.exists_eq_add_one.2 (by simp at fits; omega)
    have later := readGroups_colonGroups ends dotless (fun g hg => small g (by simp [hg]))
      (Nat.le_of_succ_le_succ fits)
    rw [textGroups_cons, List.append_assoc,
      readGroups_step ends dotless true limit rfl (small g (by simp)), later]

end

theorem leadingZeros_cons (g : Nat) (gs : List Nat) :
    leadingZeros (g :: gs) = if g = 0 then leadingZeros gs + 1 else 0 := by
  by_cases zero : g = 0 <;> simp [leadingZeros, zero]

theorem exists_of_leadingZeros (gs : List Nat) :
    ∃ back, gs = List.replicate (leadingZeros gs) 0 ++ back := by
  induction gs with
  | nil => exact ⟨[], rfl⟩
  | cons g gs ih =>
    obtain ⟨back, hback⟩ := ih
    rw [leadingZeros_cons]
    split
    · next zero =>
      refine ⟨back, ?_⟩
      rw [List.replicate_succ, List.cons_append, ← hback, zero]
    · exact ⟨g :: gs, rfl⟩

theorem exists_of_longestZeroRun {place start length : Nat} {gs : List Nat}
    (h : longestZeroRun place gs = (start, length)) (some : 0 < length) :
    ∃ front back, start = place + front.length ∧
      gs = front ++ (List.replicate length 0 ++ back) := by
  induction gs generalizing place with
  | nil =>
    cases h
    exact absurd some (Nat.lt_irrefl 0)
  | cons g gs ih =>
    rw [longestZeroRun] at h
    generalize later : longestZeroRun (place + 1) gs = found at h
    simp only at h
    split at h
    · cases h
      obtain ⟨back, hback⟩ := exists_of_leadingZeros (g :: gs)
      exact ⟨[], back, rfl, hback⟩
    · obtain ⟨front, back, hstart, rfl⟩ := ih (later.trans h)
      exact ⟨g :: front, back, by simp [hstart]; omega, rfl⟩

theorem groupsOf_lt {n g : Nat} (h : g ∈ groupsOf n) : g < 65536 := by
  obtain ⟨k, _, rfl⟩ := List.mem_map.1 h
  exact Nat.mod_lt _ (by decide)

theorem ofGroups_groupsOf {n : Nat} (h : n < Family.v6.size) : ofGroups (groupsOf n) = n := by
  have size : n < 340282366920938463463374607431768211456 := h
  have join : ∀ k, n >>> (16 * (k + 1)) * 65536 + n >>> (16 * k) % 65536 = n >>> (16 * k) :=
    shiftRight_join n 16
  have top : n >>> (16 * 7) % 65536 = n >>> (16 * 7) :=
    Nat.mod_eq_of_lt (by rw [Nat.shiftRight_eq_div_pow]; exact Nat.div_lt_of_lt_mul size)
  simp only [ofGroups, groupsOf, List.map_cons, List.map_nil, List.foldl_cons, List.foldl_nil]
  rw [Nat.zero_mul, Nat.zero_add, top, join 6, join 5, join 4, join 3, join 2, join 1, join 0]
  rfl

theorem dot_not_mem_textGroups (gs : List Nat) : '.' ∉ textGroups gs := by
  cases gs with
  | nil => exact List.not_mem_nil
  | cons g gs => simp [textGroups_cons, dot_not_mem_toDigits, dot_not_mem_colonGroups]

theorem readV6_textGroups {gs : List Nat} (small : ∀ g ∈ gs, g < 65536) (eight : gs.length = 8) :
    readV6 (textGroups gs) = some (ofGroups gs, []) := by
  have read := readGroups_textGroups (.inl rfl) List.not_mem_nil small eight.le
  rw [List.append_nil] at read
  rw [readV6, read]
  exact if_pos eight

/-- Groups around a gap, which stands for as many zeros as are missing. -/
theorem readV6_gap {front back : List Nat} {zeros : Nat}
    (small : ∀ g ∈ front ++ back, g < 65536) (some : 0 < zeros)
    (eight : front.length + zeros + back.length = 8) :
    readV6 (textGroups front ++ ':' :: ':' :: textGroups back) =
      .some (ofGroups (front ++ (List.replicate zeros 0 ++ back)), []) := by
  have dotless : '.' ∉ ':' :: ':' :: textGroups back := by simp [dot_not_mem_textGroups]
  have left := readGroups_textGroups (.inr ⟨textGroups back, rfl⟩) dotless
    (fun g hg => small g (by simp [hg])) (by omega : front.length ≤ 8)
  have right := readGroups_textGroups (.inl rfl) List.not_mem_nil
    (fun g hg => small g (by simp [hg])) (by omega : back.length ≤ 7 - front.length)
  rw [List.append_nil] at right
  have missing : 8 - front.length - back.length = zeros := by omega
  rw [readV6, left]
  simp only [right, missing, List.append_assoc]
  rw [if_neg (by omega), if_neg Bool.false_ne_true]

theorem ofGroups_mapped (n : Nat) :
    ofGroups [0, 0, 0, 0, 0, Address.mappedHigh, n / 65536, n % 65536] =
      Address.mappedHigh * Family.v4.size + n := by
  have size : Family.v4.size = 4294967296 := rfl
  simp only [ofGroups, List.foldl_cons, List.foldl_nil, Address.mappedHigh, size]
  omega

theorem readV6_mapped {n : Nat} (h : n < Family.v4.size) :
    readV6 ("::ffff:".toList ++ textV4 n) = some (Address.mappedHigh * Family.v4.size + n, []) := by
  have four := readV4_textV4 h
  rw [← ofGroups_mapped n]
  generalize textV4 n = cs at four
  change readV6 (':' :: ':' :: 'f' :: 'f' :: 'f' :: 'f' :: ':' :: cs) = _
  have group : readGroup ('f' :: 'f' :: 'f' :: 'f' :: ':' :: cs) =
      some (Address.mappedHigh, ':' :: cs) := rfl
  have back : readGroups true 7 ('f' :: 'f' :: 'f' :: 'f' :: ':' :: cs) =
      ([Address.mappedHigh, n / 65536, n % 65536], true, []) := by
    rw [readGroups_group rfl rfl group, readGroups_v4 rfl (by decide) four]
  have front := readGroups_ends (.inr ⟨'f' :: 'f' :: 'f' :: 'f' :: ':' :: cs, rfl⟩) true 8
  rw [readV6, front]
  simp only [List.length_nil, back]
  rfl

theorem readV6_textV6 {n : Nat} (h : n < Family.v6.size) : readV6 (textV6 n) = some (n, []) := by
  rw [textV6]
  split
  · next mapped =>
    rw [readV6_mapped (Nat.mod_lt _ Family.v4.size_pos), ← mapped, Nat.div_add_mod']
  · have written := ofGroups_groupsOf h
    have small : ∀ g ∈ groupsOf n, g < 65536 := fun g hg => groupsOf_lt hg
    have eight : (groupsOf n).length = 8 := rfl
    generalize groupsOf n = gs at written small eight
    dsimp only
    generalize found : longestZeroRun 0 gs = run
    obtain ⟨start, length⟩ := run
    dsimp only
    split
    · next long =>
      obtain ⟨front, back, rfl, rfl⟩ := exists_of_longestZeroRun found (Nat.zero_lt_of_lt long)
      have kept : ∀ g ∈ front ++ back, g < 65536 := fun g hg => small g (by
        rcases List.mem_append.1 hg with front | back
        · simp [front]
        · simp [back])
      have gap := readV6_gap kept (Nat.zero_lt_of_lt long) (by simpa [Nat.add_assoc] using eight)
      have before : (front ++ (List.replicate length 0 ++ back)).take (0 + front.length) = front := by
        simp
      have behind :
          (front ++ (List.replicate length 0 ++ back)).drop (0 + front.length + length) = back := by
        simp [List.drop_append]
      rw [before, behind, List.append_assoc, List.cons_append, List.cons_append, List.nil_append, gap,
        written]
    · rw [readV6_textGroups small eight, written]

theorem readV4_textV6 (n : Nat) : readV4 (textV6 n) = none := by
  rw [textV6]
  split
  · rfl
  · dsimp only
    split
    · exact readV4_eq_none (by simp [dot_not_mem_textGroups])
    · exact readV4_eq_none (dot_not_mem_textGroups _)

theorem Address.ofNat_number (a : Address) : ofNat a.family a.number = a := by
  have same : a.number % a.family.size = a.number := Nat.mod_eq_of_lt a.number_lt
  cases a
  simp only [ofNat, same]

theorem Address.ofText?_text (a : Address) : ofText? a.text = some a := by
  have whole := a.ofNat_number
  have small := a.number_lt
  rw [ofText?, text]
  cases family : a.family with
  | v4 =>
    rw [family] at whole small
    simp [readV4_textV4 small, whole]
  | v6 =>
    rw [family] at whole small
    simp [readV4_textV6, readV6_textV6 small, whole]

theorem Block.around_network (p : Block) : around p.network p.length = p := by
  refine Block.eq_of_parts rfl (Nat.min_eq_left p.length_le) ?_
  rw [number_around]
  exact Nat.div_mul_cancel p.aligned

theorem Block.ofText?_text (p : Block) : ofText? p.text = some p := by
  have slash : ∀ c ∈ p.network.text, (c != '/') = true := fun c hc => bne_iff_ne.2 fun same =>
    slash_not_mem_of_address p.network.ofText?_text (same ▸ hc)
  have digits : (Nat.toDigits 10 p.length).all Char.isDigit = true :=
    List.all_eq_true.2 fun c hc => Nat.isDigit_of_mem_toDigits (by decide) (by decide) hc
  have length : numberOf 10 (Nat.toDigits 10 p.length) = p.length :=
    Text.numberOf_toDigits (by decide) (by decide) p.length
  rw [ofText?, text, List.dropWhile_append_of_pos slash, List.takeWhile_append_of_pos slash]
  simp [digits, length, Nat.toDigits_ne_nil, p.network.ofText?_text, Nat.not_lt.2 p.length_le,
    p.around_network]

end MarkedValues.Net
