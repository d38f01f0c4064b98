import Mathlib.Tactic.IntervalCases
import MarkedValues.Text.Digits

/-!
Digits read back. In a radix up to sixteen the digits that write a number are digits of the radix,
they write that number again when they are read, and only zero is written with a zero in front.
-/
namespace MarkedValues.Text

theorem digitValue_digitChar {d : Nat} (h : d < 16) : digitValue d.digitChar = d := by
  interval_cases d <;> rfl

section

variable {radix : Nat} (low : 1 < radix) (high : radix ≤ 16)

include low high

theorem numberOf_toDigits (n : Nat) : numberOf radix (Nat.toDigits radix n) = n := by
  induction n using Nat.strongRecOn with
  | ind n ih =>
    rw [Nat.toDigits_eq_if low]
    split
    · next small =>
      have digit : numberOf radix [n.digitChar] = digitValue n.digitChar := by simp [numberOf]
      rw [digit, digitValue_digitChar (small.trans_le high)]
    · next large =>
      have last : n % radix < radix := Nat.mod_lt _ (by omega)
      rw [numberOf_concat, ih _ (Nat.div_lt_self (by omega) low),
        digitValue_digitChar (last.trans_le high), Nat.div_add_mod']

theorem isDigitOf_of_mem_toDigits {n : Nat} {c : Char} (h : c ∈ Nat.toDigits radix n) :
    isDigitOf radix c = true := by
  have digit : ∀ d < radix, isDigitOf radix d.digitChar = true := fun d hd => by
    rw [isDigitOf, digitValue_digitChar (hd.trans_le high)]
    exact decide_eq_true hd
  induction n using Nat.strongRecOn with
  | ind n ih =>
    rw [Nat.toDigits_eq_if low] at h
    split at h
    · next small =>
      rw [List.mem_singleton.1 h]
      exact digit n small
    · next large =>
      rcases List.mem_append.1 h with before | last
      · exact ih _ (Nat.div_lt_self (by omega) low) before
      · rw [List.mem_singleton.1 last]
        exact digit _ (Nat.mod_lt _ (by omega))

omit high in
theorem eq_zero_of_head?_toDigits {n : Nat} (h : (Nat.toDigits radix n).head? = some '0') :
    n = 0 := by
  induction n using Nat.strongRecOn with
  | ind n ih =>
    rw [Nat.toDigits_eq_if low] at h
    split at h
    · exact Nat.digitChar_eq_zero.1 (Option.some.inj h)
    · next large =>
      rw [List.head?_append, Option.or_eq_some_iff, List.head?_eq_none_iff] at h
      have first := h.resolve_right fun empty => Nat.toDigits_ne_nil empty.1
      have quotient := ih _ (Nat.div_lt_self (by omega) low) first
      rw [Nat.div_eq_zero_iff] at quotient
      omega

def Stops (radix : Nat) (rest : List Char) : Prop :=
  ∀ c, rest.head? = some c → isDigitOf radix c = false

/-- The digits at the start of a text are the number's, and the rest is left. -/
theorem span_toDigits {rest : List Char} (stops : Stops radix rest) (n : Nat) :
    (Nat.toDigits radix n ++ rest).takeWhile (isDigitOf radix) = Nat.toDigits radix n ∧
      (Nat.toDigits radix n ++ rest).dropWhile (isDigitOf radix) = rest := by
  have digits : ∀ c ∈ Nat.toDigits radix n, isDigitOf radix c = true :=
    fun c hc => isDigitOf_of_mem_toDigits low high hc
  rw [List.takeWhile_append_of_pos digits, List.dropWhile_append_of_pos digits]
  cases rest with
  | nil => simp
  | cons c rest => simp [stops c rfl]

end

theorem stops_nil (radix : Nat) : Stops radix [] := fun c h => by cases h

theorem stops_cons {radix : Nat} {c : Char} {rest : List Char} (h : isDigitOf radix c = false) :
    Stops radix (c :: rest) := fun d hd => by
  cases hd
  exact h

end MarkedValues.Text
