import TagPolicy.Cache.Base64
import TagPolicy.Text.Blank

/-!
Text in base sixty-four gives back the octets it was made from, and no other text does. No character
of it is blank, so trimming does not touch it.
-/

namespace TagPolicy.Base64

theorem value_of_char_of : ∀ value < 64, valueOf? (charOf value) = some value := by decide

theorem char_of_ne_padding : ∀ value < 64, charOf value ≠ padding := by decide

theorem char_of_not_blank : ∀ value < 64, Text.isBlank (charOf value) = false := by decide

theorem padding_not_blank : Text.isBlank padding = false := by decide

theorem decode_one (first : UInt8) :
    decodeOne (charOf (first.toNat / 4)) (charOf (first.toNat % 4 * 16)) = some [first] := by
  have bound := first.toNat_lt
  rw [decodeOne, value_of_char_of _ (by omega), value_of_char_of _ (by omega)]
  dsimp only [Bind.bind, Option.bind]
  rw [if_pos (by omega), show first.toNat / 4 * 4 + first.toNat % 4 * 16 / 16 = first.toNat by omega,
    UInt8.ofNat_toNat]

theorem decode_two (first second : UInt8) :
    decodeTwo (charOf (first.toNat / 4)) (charOf (first.toNat % 4 * 16 + second.toNat / 16))
      (charOf (second.toNat % 16 * 4)) = some [first, second] := by
  have firstBound := first.toNat_lt
  have secondBound := second.toNat_lt
  rw [decodeTwo, value_of_char_of _ (by omega), value_of_char_of _ (by omega),
    value_of_char_of _ (by omega)]
  dsimp only [Bind.bind, Option.bind]
  rw [if_pos (by omega),
    show first.toNat / 4 * 4 + (first.toNat % 4 * 16 + second.toNat / 16) / 16 = first.toNat by omega,
    show (first.toNat % 4 * 16 + second.toNat / 16) % 16 * 16 + second.toNat % 16 * 4 / 4 =
      second.toNat by omega,
    UInt8.ofNat_toNat, UInt8.ofNat_toNat]

theorem decode_three (first second third : UInt8) :
    decodeThree (charOf (first.toNat / 4)) (charOf (first.toNat % 4 * 16 + second.toNat / 16))
      (charOf (second.toNat % 16 * 4 + third.toNat / 64)) (charOf (third.toNat % 64)) =
        some [first, second, third] := by
  have firstBound := first.toNat_lt
  have secondBound := second.toNat_lt
  have thirdBound := third.toNat_lt
  rw [decodeThree, value_of_char_of _ (by omega), value_of_char_of _ (by omega),
    value_of_char_of _ (by omega), value_of_char_of _ (by omega)]
  dsimp only [Bind.bind, Option.bind]
  rw [show first.toNat / 4 * 4 + (first.toNat % 4 * 16 + second.toNat / 16) / 16 = first.toNat by
      omega,
    show (first.toNat % 4 * 16 + second.toNat / 16) % 16 * 16 +
      (second.toNat % 16 * 4 + third.toNat / 64) / 4 = second.toNat by omega,
    show (second.toNat % 16 * 4 + third.toNat / 64) % 4 * 64 + third.toNat % 64 = third.toNat by
      omega,
    UInt8.ofNat_toNat, UInt8.ofNat_toNat, UInt8.ofNat_toNat]

theorem decode_chars_encode (octets : List UInt8) :
    decodeChars (encodeChars octets) = some octets := by
  induction octets using encodeChars.induct with
  | case1 => rfl
  | case2 first =>
      rw [encodeChars, decodeChars, if_pos ⟨rfl, rfl⟩, if_pos rfl]
      exact decode_one first
  | case3 first second =>
      have bound := second.toNat_lt
      rw [encodeChars, decodeChars, if_pos ⟨rfl, rfl⟩,
        if_neg (char_of_ne_padding _ (by omega))]
      exact decode_two first second
  | case4 first second third rest induction =>
      have bound := third.toNat_lt
      have last := char_of_ne_padding (third.toNat % 64) (by omega)
      rw [encodeChars, decodeChars, if_neg fun both => last both.2, decode_three, induction]
      rfl

theorem decode_encode (octets : List UInt8) : decode (encode octets) = some octets := by
  rw [decode, encode, String.toList_ofList]
  exact decode_chars_encode octets

theorem encode_chars_not_blank {octets : List UInt8} :
    ∀ char ∈ encodeChars octets, Text.isBlank char = false := by
  induction octets using encodeChars.induct with
  | case1 =>
      intro char inside
      cases inside
  | case2 first =>
      have bound := first.toNat_lt
      simp only [encodeChars, List.forall_mem_cons]
      exact ⟨char_of_not_blank _ (by omega), char_of_not_blank _ (by omega), padding_not_blank,
        padding_not_blank, fun char inside => absurd inside List.not_mem_nil⟩
  | case3 first second =>
      have firstBound := first.toNat_lt
      have secondBound := second.toNat_lt
      simp only [encodeChars, List.forall_mem_cons]
      exact ⟨char_of_not_blank _ (by omega), char_of_not_blank _ (by omega),
        char_of_not_blank _ (by omega), padding_not_blank,
        fun char inside => absurd inside List.not_mem_nil⟩
  | case4 first second third rest induction =>
      have firstBound := first.toNat_lt
      have secondBound := second.toNat_lt
      have thirdBound := third.toNat_lt
      simp only [encodeChars, List.forall_mem_cons]
      exact ⟨char_of_not_blank _ (by omega), char_of_not_blank _ (by omega),
        char_of_not_blank _ (by omega), char_of_not_blank _ (by omega), induction⟩

theorem not_blank_encode {octets : List UInt8} (present : octets ≠ []) :
    Text.isBlankText (encode octets) = false := by
  rw [Text.isBlankText, encode, String.toList_ofList]
  have unblank : ∀ char ∈ encodeChars octets, Text.isBlank char = false :=
    encode_chars_not_blank
  have back := decode_chars_encode octets
  cases chars : encodeChars octets with
  | nil =>
      rw [chars] at back
      cases back
      exact absurd rfl present
  | cons char rest =>
      rw [chars] at unblank
      rw [List.all_cons, unblank char List.mem_cons_self, Bool.false_and]

theorem trim_encode (octets : List UInt8) : Text.trim (encode octets) = encode octets := by
  have unblank : ∀ char ∈ (encode octets).toList, Text.isBlank char = false := by
    rw [encode, String.toList_ofList]
    exact encode_chars_not_blank
  rw [Text.trim, Text.trim_chars_eq_self, String.ofList_toList]
  · intro char first
    exact unblank char (List.mem_of_mem_head? first)
  · intro char last
    exact unblank char (List.mem_of_mem_getLast? last)

section Canonical

theorem of_value_of {char : Char} {value : Nat} (known : valueOf? char = some value) :
    value < 64 ∧ charOf value = char := by
  have code : ∀ {low high : Char}, low ≤ char ∧ char ≤ high →
      low.toNat ≤ char.toNat ∧ char.toNat ≤ high.toNat := by
    intro low high between
    simpa [Char.le_def, UInt32.le_iff_toNat_le] using between
  have upper : 'A'.toNat = 65 ∧ 'Z'.toNat = 90 := by decide
  have lower : 'a'.toNat = 97 ∧ 'z'.toNat = 122 := by decide
  have digit : '0'.toNat = 48 ∧ '9'.toNat = 57 := by decide
  unfold valueOf? at known
  split at known
  · rename_i between
    cases known
    have bounds := code between
    refine ⟨by omega, ?_⟩
    rw [charOf, if_pos (by omega), Nat.add_sub_cancel' bounds.1, Char.ofNat_toNat]
  · split at known
    · rename_i between
      cases known
      have bounds := code between
      refine ⟨by omega, ?_⟩
      rw [charOf, if_neg (by omega), if_pos (by omega), Nat.add_sub_cancel,
        Nat.add_sub_cancel' bounds.1, Char.ofNat_toNat]
    · split at known
      · rename_i between
        cases known
        have bounds := code between
        refine ⟨by omega, ?_⟩
        rw [charOf, if_neg (by omega), if_neg (by omega), if_pos (by omega), Nat.add_sub_cancel,
          Nat.add_sub_cancel' bounds.1, Char.ofNat_toNat]
      · split at known
        · rename_i plus
          cases known
          exact ⟨by decide, plus.symm⟩
        · split at known
          · rename_i slash
            cases known
            exact ⟨by decide, slash.symm⟩
          · cases known

theorem of_decode_one {first second : Char} {octets : List UInt8}
    (decoded : decodeOne first second = some octets) :
    encodeChars octets = [first, second, padding, padding] := by
  simp only [decodeOne, Option.bind_eq_bind, Option.bind_eq_some_iff,
    Option.ite_none_right_eq_some, Option.some.injEq] at decoded
  obtain ⟨high, knownHigh, low, knownLow, unused, rfl⟩ := decoded
  obtain ⟨highBound, rfl⟩ := of_value_of knownHigh
  obtain ⟨lowBound, rfl⟩ := of_value_of knownLow
  have octet : (UInt8.ofNat (high * 4 + low / 16)).toNat = high * 4 + low / 16 :=
    UInt8.toNat_ofNat_of_lt' (by
      have : UInt8.size = 256 := rfl
      omega)
  rw [encodeChars, octet, show (high * 4 + low / 16) / 4 = high by omega,
    show (high * 4 + low / 16) % 4 * 16 = low by omega]

theorem of_decode_two {first second third : Char} {octets : List UInt8}
    (decoded : decodeTwo first second third = some octets) :
    encodeChars octets = [first, second, third, padding] := by
  simp only [decodeTwo, Option.bind_eq_bind, Option.bind_eq_some_iff,
    Option.ite_none_right_eq_some, Option.some.injEq] at decoded
  obtain ⟨high, knownHigh, middle, knownMiddle, low, knownLow, unused, rfl⟩ := decoded
  obtain ⟨highBound, rfl⟩ := of_value_of knownHigh
  obtain ⟨middleBound, rfl⟩ := of_value_of knownMiddle
  obtain ⟨lowBound, rfl⟩ := of_value_of knownLow
  have size : UInt8.size = 256 := rfl
  have one : (UInt8.ofNat (high * 4 + middle / 16)).toNat = high * 4 + middle / 16 :=
    UInt8.toNat_ofNat_of_lt' (by omega)
  have two : (UInt8.ofNat (middle % 16 * 16 + low / 4)).toNat = middle % 16 * 16 + low / 4 :=
    UInt8.toNat_ofNat_of_lt' (by omega)
  rw [encodeChars, one, two, show (high * 4 + middle / 16) / 4 = high by omega,
    show (high * 4 + middle / 16) % 4 * 16 + (middle % 16 * 16 + low / 4) / 16 = middle by omega,
    show (middle % 16 * 16 + low / 4) % 16 * 4 = low by omega]

theorem of_decode_three {first second third fourth : Char} {octets : List UInt8}
    (decoded : decodeThree first second third fourth = some octets) (rest : List UInt8) :
    encodeChars (octets ++ rest) = first :: second :: third :: fourth :: encodeChars rest := by
  simp only [decodeThree, Option.bind_eq_bind, Option.bind_eq_some_iff,
    Option.some.injEq] at decoded
  obtain ⟨high, knownHigh, upper, knownUpper, lower, knownLower, low, knownLow, rfl⟩ := decoded
  obtain ⟨highBound, rfl⟩ := of_value_of knownHigh
  obtain ⟨upperBound, rfl⟩ := of_value_of knownUpper
  obtain ⟨lowerBound, rfl⟩ := of_value_of knownLower
  obtain ⟨lowBound, rfl⟩ := of_value_of knownLow
  have size : UInt8.size = 256 := rfl
  have one : (UInt8.ofNat (high * 4 + upper / 16)).toNat = high * 4 + upper / 16 :=
    UInt8.toNat_ofNat_of_lt' (by omega)
  have two : (UInt8.ofNat (upper % 16 * 16 + lower / 4)).toNat = upper % 16 * 16 + lower / 4 :=
    UInt8.toNat_ofNat_of_lt' (by omega)
  have three : (UInt8.ofNat (lower % 4 * 64 + low)).toNat = lower % 4 * 64 + low :=
    UInt8.toNat_ofNat_of_lt' (by omega)
  rw [List.cons_append, List.cons_append, List.singleton_append, encodeChars, one, two, three,
    show (high * 4 + upper / 16) / 4 = high by omega,
    show (high * 4 + upper / 16) % 4 * 16 + (upper % 16 * 16 + lower / 4) / 16 = upper by omega,
    show (upper % 16 * 16 + lower / 4) % 16 * 4 + (lower % 4 * 64 + low) / 64 = lower by omega,
    show (lower % 4 * 64 + low) % 64 = low by omega]

/-- Octets have one text: whatever is decoded is written as it was. -/
theorem encode_chars_of_decode {chars : List Char} {octets : List UInt8}
    (decoded : decodeChars chars = some octets) : encodeChars octets = chars := by
  induction chars using decodeChars.induct generalizing octets with
  | case1 =>
      cases decoded
      rfl
  | case2 first second fourth rest last =>
      rw [decodeChars, if_pos last, if_pos rfl] at decoded
      rw [of_decode_one decoded, last.1, last.2]
  | case3 first second third fourth rest last unpadded =>
      rw [decodeChars, if_pos last, if_neg unpadded] at decoded
      rw [of_decode_two decoded, last.1, last.2]
  | case4 first second third fourth rest inner induction =>
      rw [decodeChars, if_neg inner] at decoded
      simp only [Option.bind_eq_bind, Option.bind_eq_some_iff, Option.some.injEq] at decoded
      obtain ⟨group, decodedGroup, later, decodedLater, rfl⟩ := decoded
      rw [of_decode_three decodedGroup, induction decodedLater]
  | case5 chars absent short =>
      rw [decodeChars] at decoded
      · cases decoded
      · exact absent
      · exact short

theorem encode_of_decode {text : String} {octets : List UInt8}
    (decoded : decode text = some octets) : encode octets = text := by
  rw [encode, encode_chars_of_decode decoded, String.ofList_toList]

theorem length_encode_chars (octets : List UInt8) :
    (encodeChars octets).length = 4 * ((octets.length + 2) / 3) := by
  induction octets using encodeChars.induct with
  | case1 => rfl
  | case2 first => simp [encodeChars]
  | case3 first second => simp [encodeChars]
  | case4 first second third rest induction =>
      simp only [encodeChars, List.length_cons, induction]
      omega

/-- Padding fills up the last group and stands nowhere else. -/
theorem count_padding (octets : List UInt8) :
    (encodeChars octets).count padding = (3 - octets.length % 3) % 3 := by
  have other : ∀ {value : Nat}, value < 64 → (charOf value == padding) = false := by
    intro value small
    exact beq_eq_false_iff_ne.mpr (char_of_ne_padding value small)
  induction octets using encodeChars.induct with
  | case1 => rfl
  | case2 first =>
      have bound := first.toNat_lt
      rw [encodeChars]
      simp only [List.count_cons, List.count_nil, other (show first.toNat / 4 < 64 by omega),
        other (show first.toNat % 4 * 16 < 64 by omega)]
      rfl
  | case3 first second =>
      have firstBound := first.toNat_lt
      have secondBound := second.toNat_lt
      rw [encodeChars]
      simp only [List.count_cons, List.count_nil, other (show first.toNat / 4 < 64 by omega),
        other (show first.toNat % 4 * 16 + second.toNat / 16 < 64 by omega),
        other (show second.toNat % 16 * 4 < 64 by omega)]
      rfl
  | case4 first second third rest induction =>
      have firstBound := first.toNat_lt
      have secondBound := second.toNat_lt
      have thirdBound := third.toNat_lt
      rw [encodeChars]
      simp only [List.count_cons, induction, other (show first.toNat / 4 < 64 by omega),
        other (show first.toNat % 4 * 16 + second.toNat / 16 < 64 by omega),
        other (show second.toNat % 16 * 4 + third.toNat / 64 < 64 by omega),
        other (show third.toNat % 64 < 64 by omega), List.length_cons]
      simp only [Bool.false_eq_true, if_false]
      omega

end Canonical

end TagPolicy.Base64
