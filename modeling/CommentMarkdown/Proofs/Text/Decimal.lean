import CommentMarkdown.Text.Basic
import Mathlib.Data.List.Induction

/-!
# Decimals

The decimal of a number consists of digits, and the first of them is no zero unless the number is
zero. Digits may have any number of zeros in front without standing for another number, and that
is all that two writings of a number differ in (`digits_iff`).
-/

namespace CommentMarkdown.Text

/-- A decimal consists of digits. -/
theorem isDigit_of_mem_decimal {number : Nat} {c : Char} (member : c ∈ decimal number) :
    c.isDigit = true :=
  Nat.isDigit_of_mem_toDigits (by decide) (by decide) member

/-- Each digit is that of a number below ten. -/
theorem exists_digitChar {c : Char} (digit : c.isDigit = true) :
    ∃ value < 10, c = Nat.digitChar value := by
  obtain ⟨low, high⟩ := Char.isDigit_iff_toNat.mp digit
  change 48 ≤ c.toNat at low
  change c.toNat ≤ 57 at high
  have small : c.toNat - 48 < 10 := by omega
  refine ⟨c.toNat - 48, small, Char.toNat_inj.mp ?_⟩
  rw [Nat.toNat_digitChar_of_lt_ten small]
  omega

/-- One more digit at the end. -/
theorem ofDigitChars_concat (front : Text) {value : Nat} (small : value < 10) :
    Nat.ofDigitChars 10 (front ++ [Nat.digitChar value]) 0 =
      10 * Nat.ofDigitChars 10 front 0 + value := by
  rw [Nat.ofDigitChars_append, Nat.ofDigitChars_cons_digitChar_of_lt_ten small,
    Nat.ofDigitChars_nil]

/-- Digits are zeros, if they stand for zero, or zeros in front of the decimal of their number.
The induction is on the last digit, in which the decimal of a number ends as well. -/
theorem exists_zeros_of_digits (digits : Text) (allDigits : ∀ c ∈ digits, c.isDigit = true) :
    ∃ zeros, digits = List.replicate zeros '0' ++
      if Nat.ofDigitChars 10 digits 0 = 0 then [] else decimal (Nat.ofDigitChars 10 digits 0) := by
  induction digits using List.reverseRecOn with
  | nil => exact ⟨0, rfl⟩
  | append_singleton front last ih =>
    obtain ⟨frontDigits, lastDigit⟩ := List.forall_mem_append.mp allDigits
    obtain ⟨value, small, rfl⟩ := exists_digitChar (lastDigit last List.mem_cons_self)
    obtain ⟨zeros, shape⟩ := ih frontDigits
    rw [ofDigitChars_concat front small]
    generalize Nat.ofDigitChars 10 front 0 = before at shape
    have ends : decimal value = [Nat.digitChar value] := Nat.toDigits_of_lt_base small
    by_cases nothing : before = 0
    · rw [if_pos nothing, List.append_nil] at shape
      rw [nothing, Nat.mul_zero, Nat.zero_add, shape]
      by_cases zero : value = 0
      · refine ⟨zeros + 1, ?_⟩
        rw [zero, if_pos rfl, List.append_nil, List.replicate_succ']
        rfl
      · exact ⟨zeros, by rw [if_neg zero, ends]⟩
    · rw [if_neg nothing] at shape
      have joined : decimal (10 * before + value) = decimal before ++ [Nat.digitChar value] := by
        rw [← ends]
        exact (Nat.toDigits_append_toDigits (by decide) (Nat.pos_of_ne_zero nothing) small).symm
      refine ⟨zeros, ?_⟩
      rw [if_neg (by omega), joined, shape, List.append_assoc]

/-- A text consists of digits that stand for a number other than zero exactly if it is the number's
decimal with zeros in front. -/
theorem digits_iff (text : Text) {number : Nat} (positive : 0 < number) :
    ((∀ c ∈ text, c.isDigit = true) ∧ Nat.ofDigitChars 10 text 0 = number) ↔
      ∃ zeros, text = List.replicate zeros '0' ++ decimal number := by
  constructor
  · rintro ⟨allDigits, rfl⟩
    obtain ⟨zeros, shape⟩ := exists_zeros_of_digits text allDigits
    rw [if_neg (Nat.ne_of_gt positive)] at shape
    exact ⟨zeros, shape⟩
  · rintro ⟨zeros, rfl⟩
    constructor
    · intro c member
      rcases List.mem_append.mp member with zero | digit
      · rw [List.eq_of_mem_replicate zero]
        rfl
      · exact isDigit_of_mem_decimal digit
    · rw [Nat.ofDigitChars_append, Nat.ofDigitChars_replicate_zero, Nat.mul_zero, decimal,
        Nat.ofDigitChars_ten_toDigits]

/-- The decimal of a number other than zero does not begin with a zero: what is behind it would
stand for the number as well, and would be shorter. -/
theorem head?_decimal_ne_zero {number : Nat} (positive : 0 < number) :
    (decimal number).head? ≠ some '0' := by
  intro first
  obtain ⟨rest, whole⟩ : ∃ rest, decimal number = '0' :: rest := by
    cases shape : decimal number with
    | nil => simp [shape] at first
    | cons c rest => exact ⟨rest, by rw [shape] at first; rw [Option.some.inj first]⟩
  have restDigits : ∀ c ∈ rest, c.isDigit = true := fun c member =>
    isDigit_of_mem_decimal (whole ▸ List.mem_cons_of_mem '0' member)
  have restValue : Nat.ofDigitChars 10 rest 0 = number := by
    have value : Nat.ofDigitChars 10 (decimal number) 0 = number := Nat.ofDigitChars_ten_toDigits
    rwa [whole, Nat.ofDigitChars_cons] at value
  obtain ⟨zeros, shape⟩ := (digits_iff rest positive).mp ⟨restDigits, restValue⟩
  have sizes := congrArg List.length shape
  rw [whole, List.length_append, List.length_replicate, List.length_cons] at sizes
  omega

end CommentMarkdown.Text
