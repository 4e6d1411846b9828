import Mathlib.Data.Nat.Digits.Defs
import TagPolicy.Text.Numeral

/-!
What the words of integers denote, said by their digits alone and not by a reading from left to
right. A word is read as an integer of 64 bits exactly if it denotes one.
-/

namespace TagPolicy.Text

def IsDigit (char : Char) : Prop := '0' ≤ char ∧ char ≤ '9'

instance : DecidablePred IsDigit :=
  fun char => inferInstanceAs (Decidable ('0' ≤ char ∧ char ≤ '9'))

def decimal (digits : List Char) : Nat :=
  Nat.ofDigits 10 (digits.reverse.map fun char => char.toNat - '0'.toNat)

inductive WritesInt : List Char → Int → Prop
  | unsigned {digits : List Char} : digits ≠ [] → (∀ char ∈ digits, IsDigit char) →
      WritesInt digits (decimal digits)
  | plus {digits : List Char} : digits ≠ [] → (∀ char ∈ digits, IsDigit char) →
      WritesInt ('+' :: digits) (decimal digits)
  | minus {digits : List Char} : digits ≠ [] → (∀ char ∈ digits, IsDigit char) →
      WritesInt ('-' :: digits) (-(decimal digits : Int))

theorem decimal_cons (char : Char) (digits : List Char) :
    decimal (char :: digits) =
      (char.toNat - '0'.toNat) * 10 ^ digits.length + decimal digits := by
  simp only [decimal, List.reverse_cons, List.map_append, List.map_cons, List.map_nil,
    Nat.ofDigits_append, Nat.ofDigits_singleton, List.length_map, List.length_reverse]
  rw [Nat.mul_comm, Nat.add_comm]

theorem digit_eq_some {char : Char} {value : Nat} :
    digit? char = some value ↔ IsDigit char ∧ value = char.toNat - '0'.toNat := by
  rw [digit?, IsDigit]
  split
  · rename_i digit
    simp [digit, eq_comm]
  · rename_i other
    simp [other]

theorem digits_from_eq_some {start total : Nat} {chars : List Char} :
    digitsFrom start chars = some total ↔
      (∀ char ∈ chars, IsDigit char) ∧ total = start * 10 ^ chars.length + decimal chars := by
  induction chars generalizing start with
  | nil => simp [digitsFrom, decimal, eq_comm]
  | cons char chars induction =>
      have shifted : ∀ digit, (start * 10 + digit) * 10 ^ chars.length + decimal chars =
          start * 10 ^ (chars.length + 1) + (digit * 10 ^ chars.length + decimal chars) := by
        intro digit
        ring
      simp only [digitsFrom, Option.bind_eq_some_iff, digit_eq_some, induction,
        List.forall_mem_cons, decimal_cons, List.length_cons, shifted]
      constructor
      · rintro ⟨value, ⟨first, rfl⟩, rest, rfl⟩
        exact ⟨⟨first, rest⟩, rfl⟩
      · rintro ⟨⟨first, rest⟩, rfl⟩
        exact ⟨_, ⟨first, rfl⟩, rest, rfl⟩

theorem natural_eq_some {chars : List Char} {value : Nat} :
    natural? chars = some value ↔
      chars ≠ [] ∧ (∀ char ∈ chars, IsDigit char) ∧ value = decimal chars := by
  cases chars with
  | nil => simp [natural?]
  | cons char chars =>
      rw [natural?, digits_from_eq_some, Nat.zero_mul, Nat.zero_add]
      · simp
      · intro impossible
        cases impossible

theorem magnitude_eq_some {digits : List Char} {value : Int} :
    (do let magnitude ← natural? digits; pure (magnitude : Int)) = some value ↔
      digits ≠ [] ∧ (∀ char ∈ digits, IsDigit char) ∧ value = decimal digits := by
  simp only [bind, Option.bind_eq_some_iff, pure, Option.some.injEq, natural_eq_some]
  constructor
  · rintro ⟨magnitude, ⟨present, each, rfl⟩, rfl⟩
    exact ⟨present, each, rfl⟩
  · rintro ⟨present, each, rfl⟩
    exact ⟨_, ⟨present, each, rfl⟩, rfl⟩

theorem signed_eq_some {chars : List Char} {value : Int} :
    signed? chars = some value ↔ WritesInt chars value := by
  constructor
  · intro read
    unfold signed? at read
    split at read
    all_goals
      obtain ⟨magnitude, digits, rfl⟩ := Option.map_eq_some_iff.mp read
      obtain ⟨present, each, rfl⟩ := magnitude_eq_some.mp digits
    · exact .minus present each
    · exact .plus present each
    · exact .unsigned present each
  · intro writes
    cases writes with
    | unsigned present each =>
        have digits := magnitude_eq_some.mpr ⟨present, each, rfl⟩
        unfold signed?
        -- a sign is no digit, so the word is taken whole
        split
        · exact absurd (each '-' List.mem_cons_self) (by decide)
        · exact absurd (each '+' List.mem_cons_self) (by decide)
        · rw [digits]
          rfl
    | plus present each =>
        rw [signed?, magnitude_eq_some.mpr ⟨present, each, rfl⟩]
        rfl
    | minus present each =>
        rw [signed?, magnitude_eq_some.mpr ⟨present, each, rfl⟩]
        rfl

/-- A word is read as an integer exactly if it denotes one of 64 bits. -/
theorem int64_eq_some {word : String} {number : Int64} :
    int64? word = some number ↔ WritesInt word.toList number.toInt := by
  have low := number.le_toInt
  have high := number.toInt_lt
  simp only [int64?, Option.bind_eq_some_iff, signed_eq_some]
  constructor
  · rintro ⟨value, writes, read⟩
    split at read
    · rename_i fits
      cases read
      simp only [fitsInt64, Bool.and_eq_true, decide_eq_true_eq] at fits
      rwa [Int64.toInt_ofInt_of_le (by omega) (by omega)]
    · cases read
  · intro writes
    refine ⟨number.toInt, writes, ?_⟩
    rw [if_pos, Int64.ofInt_toInt]
    simp only [fitsInt64, Bool.and_eq_true, decide_eq_true_eq]
    omega

section Printing

theorem decimal_eq_ofDigitChars (digits : List Char) :
    Nat.ofDigitChars 10 digits 0 = decimal digits := by
  induction digits with
  | nil => rfl
  | cons char digits induction =>
      rw [Nat.ofDigitChars_cons, Nat.ofDigitChars_eq_ofDigitChars_zero, induction, decimal_cons,
        Nat.mul_zero, Nat.zero_add, Nat.mul_comm]

theorem decimal_toDigits (number : Nat) : decimal (Nat.toDigits 10 number) = number := by
  rw [← decimal_eq_ofDigitChars, Nat.ofDigitChars_ten_toDigits]

theorem is_digit_of_mem_toDigits {number : Nat} {char : Char}
    (inside : char ∈ Nat.toDigits 10 number) : IsDigit char := by
  have digit := Nat.isDigit_of_mem_toDigits (by decide) (by decide) inside
  simp only [Char.isDigit, Bool.and_eq_true, decide_eq_true_eq, ge_iff_le] at digit
  exact digit

theorem toList_toString (value : Int) :
    (toString value).toList =
      if 0 ≤ value then Nat.toDigits 10 value.toNat else '-' :: Nat.toDigits 10 (-value).toNat := by
  rw [Int.toString_eq_repr, Int.repr_eq_if]
  split
  · exact Nat.toList_repr
  · rw [String.toList_append, Nat.toList_repr]
    rfl

/-- An integer is denoted by its decimal form. -/
theorem writes_int_toString (value : Int) : WritesInt (toString value).toList value := by
  have each : ∀ number, ∀ char ∈ Nat.toDigits 10 number, IsDigit char :=
    fun _ _ => is_digit_of_mem_toDigits
  rw [toList_toString]
  split
  · rename_i sign
    have digits := WritesInt.unsigned Nat.toDigits_ne_nil (each value.toNat)
    rw [decimal_toDigits, Int.toNat_of_nonneg sign] at digits
    exact digits
  · rename_i sign
    have digits := WritesInt.minus Nat.toDigits_ne_nil (each (-value).toNat)
    rw [decimal_toDigits, Int.toNat_of_nonneg (by omega), Int.neg_neg] at digits
    exact digits

end Printing

end TagPolicy.Text
