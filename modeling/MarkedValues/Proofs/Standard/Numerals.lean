import Mathlib.Data.Nat.Digits.Defs
import MarkedValues.Proofs.Call.Delivery
import MarkedValues.Proofs.Call.Primitives
import MarkedValues.Proofs.Call.Table
import MarkedValues.Proofs.Number.Whole
import MarkedValues.Proofs.Standard.Arguments

/-!
Integers written in a base. The reader accepts the texts of the grammar whose magnitude is a word,
and gives the number that they write: an optional sign, then digits of the base by their places. It
computes with words, each step of which is exact or stops it.
-/
namespace MarkedValues.Standard

variable {engine : Regex.Engine}

/-- The character is a digit with this value. Up to base 36 a letter is one digit in either case;
    above it the upper case comes behind the lower case. -/
inductive DigitOf (base : Nat) (c : Char) : Nat → Prop
  | numeral {k : Nat} : k < 10 → c.toNat = '0'.toNat + k → DigitOf base c k
  | lower {k : Nat} : k < 26 → c.toNat = 'a'.toNat + k → DigitOf base c (10 + k)
  | upperAlike {k : Nat} : base ≤ 36 → k < 26 → c.toNat = 'A'.toNat + k → DigitOf base c (10 + k)
  | upperBehind {k : Nat} : 36 < base → k < 26 → c.toNat = 'A'.toNat + k → DigitOf base c (36 + k)

/-- One or more digits of the base, with their values. -/
structure Digits (base : Nat) (cs : List Char) (ds : List Nat) : Prop where
  nonempty : cs ≠ []
  values : List.Forall₂ (fun c d => DigitOf base c d ∧ d < base) cs ds

/-- The text writes these digits, behind a minus or not. -/
inductive Written (base : Nat) : List Char → (negative : Bool) → (ds : List Nat) → Prop
  | plain {cs : List Char} {ds : List Nat} : Digits base cs ds → Written base cs false ds
  | plus {cs : List Char} {ds : List Nat} : Digits base cs ds → Written base ('+' :: cs) false ds
  | minus {cs : List Char} {ds : List Nat} : Digits base cs ds → Written base ('-' :: cs) true ds

def signed (negative : Bool) (n : Nat) : Int := if negative then -(n : Int) else n

theorem digitValue_eq_some_iff {c : Char} {base d : Nat} :
    digitValue c base = some d ↔ DigitOf base c d ∧ d < base := by
  have numeral : ('0' ≤ c ∧ c ≤ '9') ↔ (48 ≤ c.toNat ∧ c.toNat ≤ 57) := Iff.rfl
  have lower : ('a' ≤ c ∧ c ≤ 'z') ↔ (97 ≤ c.toNat ∧ c.toNat ≤ 122) := Iff.rfl
  have upper : ('A' ≤ c ∧ c ≤ 'Z') ↔ (65 ≤ c.toNat ∧ c.toNat ≤ 90) := Iff.rfl
  have zero : '0'.toNat = 48 := rfl
  have firstLower : 'a'.toNat = 97 := rfl
  have firstUpper : 'A'.toNat = 65 := rfl
  simp only [digitValue, Option.filter_eq_some_iff, decide_eq_true_eq, numeral, lower, upper, zero,
    firstLower, firstUpper]
  refine and_congr_left fun _ => ?_
  constructor
  · intro value
    split at value
    · next within =>
      cases value
      exact .numeral (by omega) (by omega)
    · split at value
      · next within =>
        cases value
        rw [Nat.add_comm]
        exact .lower (by omega) (by omega)
      · split at value
        · next within =>
          cases value
          split
          · next low =>
            rw [Nat.add_comm]
            exact .upperAlike low (by omega) (by omega)
          · next high =>
            rw [Nat.add_comm]
            exact .upperBehind (by omega) (by omega) (by omega)
        · cases value
  · intro digit
    cases digit with
    | numeral small place =>
      rw [zero] at place
      rw [if_pos (by omega)]
      exact congrArg some (by omega)
    | lower small place =>
      rw [firstLower] at place
      rw [if_neg (by omega), if_pos (by omega)]
      exact congrArg some (by omega)
    | upperAlike low small place =>
      rw [firstUpper] at place
      rw [if_neg (by omega), if_neg (by omega), if_pos (by omega), if_pos low]
      exact congrArg some (by omega)
    | upperBehind high small place =>
      rw [firstUpper] at place
      rw [if_neg (by omega), if_neg (by omega), if_pos (by omega), if_neg (by omega)]
      exact congrArg some (by omega)

theorem DigitOf.zero_le {base d : Nat} {c : Char} (h : DigitOf base c d) : '0'.toNat ≤ c.toNat := by
  cases h with
  | numeral _ place => exact place ▸ Nat.le_add_right _ _
  | lower _ place | upperAlike _ _ place | upperBehind _ _ place =>
    exact place ▸ Nat.le_add_right_of_le (by decide)

theorem foldl_digits (base n : Nat) (ds : List Nat) :
    ds.foldl (fun n d => n * base + d) n = n * base ^ ds.length + Nat.ofDigits base ds.reverse := by
  induction ds generalizing n with
  | nil => simp
  | cons d ds ih =>
    rw [List.foldl_cons, ih, Nat.ofDigits_reverse_cons, List.length_cons]
    ring

theorem le_foldl_digits {base : Nat} (positive : 0 < base) (n : Nat) (ds : List Nat) :
    n ≤ ds.foldl (fun n d => n * base + d) n := by
  rw [foldl_digits]
  exact Nat.le_add_right_of_le (Nat.le_mul_of_pos_right n (Nat.pow_pos positive))

/-- One digit is read exactly when the product and the sum it takes are words, and then as these. -/
theorem digitsValue_cons_eq_some_iff {base : Nat} (room : base ≤ Wide.limit) {acc r : Wide} {c : Char}
    {cs : List Char} : digitsValue base acc (c :: cs) = some r ↔
      ∃ (d : Nat) (shifted next : Wide), (DigitOf base c d ∧ d < base) ∧
        shifted.toInt = acc.toInt * base ∧ next.toInt = shifted.toInt + d ∧
        digitsValue base next cs = some r := by
  simp only [digitsValue, Option.bind_eq_bind, Option.bind_eq_some_iff, digitValue_eq_some_iff,
    Wide.checkedMul_eq_some_iff, Wide.checkedAdd_eq_some_iff, Wide.toInt_ofNat room]
  constructor
  · rintro ⟨d, digit, shifted, product, next, sum, rest⟩
    rw [Wide.toInt_ofNat (digit.2.le.trans room)] at sum
    exact ⟨d, shifted, next, digit, product, sum, rest⟩
  · rintro ⟨d, shifted, next, digit, product, sum, rest⟩
    rw [← Wide.toInt_ofNat (digit.2.le.trans room)] at sum
    exact ⟨d, digit, shifted, product, next, sum, rest⟩

/-- Reading goes through exactly when all characters are digits and the number so far is a word. -/
theorem digitsValue_eq_some_iff {base : Nat} (room : base ≤ Wide.limit) {cs : List Char}
    {acc r : Wide} {n : Nat} (exact : acc.toInt = n) :
    digitsValue base acc cs = some r ↔
      ∃ ds, List.Forall₂ (fun c d => DigitOf base c d ∧ d < base) cs ds ∧
        r.toInt = ds.foldl (fun n d => n * base + d) n := by
  induction cs generalizing acc n with
  | nil =>
    simp only [digitsValue, Option.some.injEq]
    constructor
    · rintro rfl
      exact ⟨[], .nil, exact⟩
    · rintro ⟨_, ⟨⟩, value⟩
      exact BitVec.toInt_inj.1 (exact.trans value.symm)
  | cons c cs ih =>
    rw [digitsValue_cons_eq_some_iff room, exact]
    constructor
    · rintro ⟨d, shifted, next, digit, product, sum, rest⟩
      rw [product] at sum
      obtain ⟨ds, digits, value⟩ := (ih (n := n * base + d) (mod_cast sum)).1 rest
      exact ⟨d :: ds, .cons digit digits, value⟩
    · rintro ⟨_, digits, value⟩
      cases digits with
      | @cons _ d _ ds digit digits =>
        -- What is read further only adds, so the sum here is a word as the whole number is.
        have positive : 0 < base := Nat.zero_lt_of_lt digit.2
        have whole : n * base + d ≤ Wide.limit := by
          have last := r.toInt_le_limit
          have first := le_foldl_digits positive (n * base + d) ds
          rw [value, List.foldl_cons] at last
          omega
        have shifted : n * base ≤ Wide.limit := le_trans (Nat.le_add_right _ d) whole
        refine ⟨d, .ofNat 128 (n * base), .ofNat 128 (n * base + d), digit, ?_, ?_, ?_⟩
        · rw [Wide.toInt_ofNat shifted, Nat.cast_mul]
        · rw [Wide.toInt_ofNat shifted, Wide.toInt_ofNat whole, Nat.cast_add]
        · exact (ih (Wide.toInt_ofNat whole)).2 ⟨ds, digits, value⟩

theorem digitsValue_zero_eq_some_iff {base : Nat} (room : base ≤ Wide.limit) {cs : List Char}
    {r : Wide} : digitsValue base 0 cs = some r ↔
      ∃ ds, List.Forall₂ (fun c d => DigitOf base c d ∧ d < base) cs ds ∧
        r.toInt = Nat.ofDigits base ds.reverse := by
  rw [digitsValue_eq_some_iff room (n := 0) rfl]
  simp only [foldl_digits, Nat.zero_mul, Nat.zero_add]

theorem takeSign_of_digit {base d : Nat} {c : Char} {cs : List Char} (digit : DigitOf base c d) :
    Number.takeSign (c :: cs) = (false, c :: cs) := by
  have high : 48 ≤ c.toNat := digit.zero_le
  refine Number.takeSign.eq_3 _ ?_ ?_
  · rintro rest ⟨⟩
    exact absurd high (by decide)
  · rintro rest ⟨⟩
    exact absurd high (by decide)

theorem written_iff {base : Nat} {text : List Char} {negative : Bool} {ds : List Nat} :
    Written base text negative ds ↔
      (Number.takeSign text).1 = negative ∧ Digits base (Number.takeSign text).2 ds := by
  constructor
  · intro written
    cases written with
    | plain digits =>
      obtain ⟨nonempty, values⟩ := digits
      cases values with
      | nil => exact absurd rfl nonempty
      | cons digit values =>
        rw [takeSign_of_digit digit.1]
        exact ⟨rfl, nonempty, .cons digit values⟩
    | plus digits | minus digits => exact ⟨rfl, digits⟩
  · rintro ⟨rfl, digits⟩
    revert digits
    fun_cases Number.takeSign text with
    | case1 => exact .minus
    | case2 => exact .plus
    | case3 => exact .plain

theorem toInt_signed {r : Wide} {n : Nat} (value : r.toInt = n) (negative : Bool) :
    (if negative then -r else r).toInt = signed negative n := by
  cases negative with
  | false => exact value
  | true =>
    have inside : r ≠ BitVec.intMin 128 := by
      rintro rfl
      exact absurd (Int.natCast_nonneg n) (value ▸ by decide)
    exact (BitVec.toInt_neg_of_ne_intMin inside).trans (congrArg _ value)

/-- The text is read exactly when it is written in the base with a magnitude that is a word, as the
    number that it writes. -/
theorem integerOf?_eq_some_iff {base : Nat} (room : base ≤ Wide.limit) {text : List Char} {n : Int} :
    integerOf? text base = some n ↔ ∃ negative ds, Written base text negative ds ∧
      Nat.ofDigits base ds.reverse ≤ Wide.limit ∧
      n = signed negative (Nat.ofDigits base ds.reverse) := by
  simp only [written_iff, integerOf?]
  constructor
  · intro read
    split at read
    · cases read
    · next given =>
      obtain ⟨r, digits, rfl⟩ := Option.map_eq_some_iff.1 read
      obtain ⟨ds, values, value⟩ := (digitsValue_zero_eq_some_iff room).1 digits
      refine ⟨_, ds, ⟨rfl, by simpa using given, values⟩, ?_, toInt_signed value _⟩
      exact Int.ofNat_le.1 (value ▸ r.toInt_le_limit)
  · rintro ⟨_, ds, ⟨rfl, nonempty, values⟩, fits, rfl⟩
    have value := Wide.toInt_ofNat fits
    rw [if_neg (by simpa using nonempty),
      (digitsValue_zero_eq_some_iff room).2 ⟨ds, values, value⟩, Option.map_some,
      toInt_signed value]

/-- The magnitude has to be a word of its own, so the least word is not read. -/
example : integerOf? "-170141183460469231731687303715884105728".toList 10 = none := by decide

theorem call_parseint_eq_ok_iff (ctx : Context) {base : Nat} (low : 2 ≤ base) (high : base ≤ 62)
    {b : Number} (whole : b.toInt? = some (base : Int)) (text : String) {v : Value} :
    (table engine).call ctx "parseint" [.string text, .number b] = .ok v ↔
      ∃ n, integerOf? text.toList base = some n ∧ v = .int n := by
  have delivers : parseint.Delivers 0 [.string text, .number b] [.string text, .number b] :=
    .cons rfl (Param.handsOver_self rfl rfl rfl (.inl rfl))
      (.cons rfl (Param.handsOver_self rfl rfl rfl (.inr rfl)) (.nil 2))
  have body : ∀ w, parseint.body ctx [.string text, .number b] .number = .ok w ↔
      ∃ n, integerOf? text.toList base = some n ∧ w = .int n := by
    intro w
    have first : (argument [.string text, .number b] 0).string? = some text := rfl
    have second : wholeAt [.string text, .number b] 1 = .ok (base : Int) :=
      (wholeAt_of_number rfl).2 whole
    have inside : ¬ ((base : Int) < 2 ∨ 62 < (base : Int)) := by omega
    simp only [parseint, parseintBody, first, second, bind, Except.bind, if_neg inside,
      Int.toNat_natCast]
    cases integerOf? text.toList base with
    | none => simp [blame]
    | some n => simp [eq_comm]
  rw [standardTable_call parseint rfl, delivers.call rfl, ← body]
  refine Function.finish_eq_ok_iff fun w hw => ?_
  obtain ⟨n, -, rfl⟩ := (body w).1 hw
  exact ⟨rfl, rfl, rfl⟩

/-- In a base from 2 to 62 a text is read exactly when it is written in that base with a
    magnitude of at most 2^127 - 1, and as the number that it writes. Digit for digit the
    product and the sum are those of the integers, or reading stops; the function gives what is
    read and nothing else. -/
theorem parseint_reads_what_is_written {base : Nat} (low : 2 ≤ base) (high : base ≤ 62)
    (text : String) :
    (∀ n, integerOf? text.toList base = some n ↔ ∃ negative ds, Written base text.toList negative ds ∧
      Nat.ofDigits base ds.reverse ≤ 2 ^ 127 - 1 ∧
      n = signed negative (Nat.ofDigits base ds.reverse)) ∧
    (∀ acc c cs r, digitsValue base acc (c :: cs) = some r ↔
      ∃ (d : Nat) (shifted next : Wide), (DigitOf base c d ∧ d < base) ∧
        shifted.toInt = acc.toInt * base ∧ next.toInt = shifted.toInt + d ∧
        digitsValue base next cs = some r) ∧
    ∀ (ctx : Context) (b : Number) (v : Value), b.toInt? = some (base : Int) →
      ((table engine).call ctx "parseint" [.string text, .number b] = .ok v ↔
        ∃ n, integerOf? text.toList base = some n ∧ v = .int n) := by
  have room : base ≤ Wide.limit := high.trans (by decide)
  exact ⟨fun n => integerOf?_eq_some_iff room, fun acc c cs r => digitsValue_cons_eq_some_iff room,
    fun ctx b v whole => call_parseint_eq_ok_iff ctx low high whole text⟩

theorem letters_read_in_base_62 : 2 ≤ 62 ∧ 62 ≤ 62 ∧ (Number.ofInt 62).toInt? = some 62 ∧
    standardTable.call {} "parseint" [.string "-Zz", .number (.ofInt 62)] = .ok (.int (-3817)) ∧
    digitsValue 62 61 ['z'] = some 3817 := by
  have upper : DigitOf 62 'Z' 61 := .upperBehind (k := 25) (by decide) (by decide) rfl
  have lower : DigitOf 62 'z' 35 := .lower (k := 25) (by decide) rfl
  have digits : Digits 62 ['Z', 'z'] [61, 35] :=
    ⟨by simp, .cons ⟨upper, by decide⟩ (.cons ⟨lower, by decide⟩ .nil)⟩
  have written : Written 62 "-Zz".toList true [61, 35] := .minus digits
  have whole : (Number.ofInt 62).toInt? = some 62 := Number.toInt?_ofInt (by decide)
  obtain ⟨read, step, call⟩ :=
    parseint_reads_what_is_written (by decide : 2 ≤ 62) (by decide : 62 ≤ 62) "-Zz"
  refine ⟨by decide, by decide, whole, (call _ _ _ whole).2 ⟨-3817, ?_, rfl⟩, ?_⟩
  · exact (read _).2 ⟨true, [61, 35], written, by decide, by decide⟩
  · exact (step 61 'z' [] 3817).2 ⟨35, 3782, 3817, ⟨lower, by decide⟩, by decide, by decide, rfl⟩

end MarkedValues.Standard
