import TagPolicy.Proofs.Cache.Hostile

/-!
One damaged character in the text of a table is always noticed. A text that is still accepted carries
the same octets under the same hash, since no others fit. So the two texts write octets of one
envelope. The numbers in it may be longer than needed, but always by an even number of octets, and two
octets more would take both signs of padding away, of which one character is at most one.
-/

namespace TagPolicy

open Outcome (bind_eq_ok eq_ok_of_toOption pure_eq_ok)

namespace Layout

/-- Octets stand for something and a rest after it: in the form it is written in, or in a form that
is longer by an even number of octets. -/
def Spells (written octets rest : List UInt8) : Prop :=
  ∃ excess, octets.length = written.length + 2 * excess + rest.length ∧
    (excess = 0 → octets = written ++ rest)

variable {octets rest : List UInt8}

theorem spells_written (written rest : List UInt8) : Spells written (written ++ rest) rest :=
  ⟨0, by rw [List.length_append]; omega, fun _ => rfl⟩

theorem Spells.append {first second middle : List UInt8} (front : Spells first octets middle)
    (back : Spells second middle rest) : Spells (first ++ second) octets rest := by
  obtain ⟨more, length, same⟩ := front
  obtain ⟨most, lengthBack, sameBack⟩ := back
  refine ⟨more + most, ?_, ?_⟩
  · rw [List.length_append]
    omega
  · intro none
    rw [same (by omega), sameBack (by omega), List.append_assoc]

theorem octets_of_read_little_endian {count number : Nat}
    (read : readLittleEndian count octets = .ok (number, rest)) :
    octets = littleEndian count number ++ rest := by
  induction count generalizing octets number rest with
  | zero =>
      cases read
      rfl
  | succ count induction =>
      cases octets with
      | nil => cases read
      | cons octet octets =>
          obtain ⟨⟨higher, after⟩, readHigher, finished⟩ := bind_eq_ok.mp read
          cases pure_eq_ok.mp finished
          have low := octet.toNat_lt
          have lowest : UInt8.ofNat (octet.toNat + 256 * higher) = octet := by
            apply UInt8.toNat_inj.mp
            rw [UInt8.toNat_ofNat']
            omega
          rw [littleEndian, lowest, show (octet.toNat + 256 * higher) / 256 = higher by omega,
            List.cons_append, ← induction readHigher]

theorem length_write_nat_odd (number : Nat) : (writeNat number).length % 2 = 1 := by
  rw [length_write_nat]
  repeat' split
  all_goals rfl

theorem write_nat_of_length (number : Nat) :
    ((writeNat number).length = 3 → writeNat number = 0xFB :: littleEndian 2 number) ∧
      ((writeNat number).length = 5 → writeNat number = 0xFC :: littleEndian 4 number) ∧
        ((writeNat number).length = 9 → writeNat number = 0xFD :: littleEndian 8 number) := by
  rw [writeNat]
  repeat' split
  all_goals simp [length_little_endian]

/-- A number in a form with a mark. Of the forms that have room for it, the shortest is written. -/
theorem spells_marked {mark : UInt8} {count number : Nat} (even : count % 2 = 0)
    (read : readLittleEndian count octets = .ok (number, rest))
    (room : (writeNat number).length ≤ count + 1)
    (shortest : (writeNat number).length = count + 1 →
      writeNat number = mark :: littleEndian count number) :
    Spells (writeNat number) (mark :: octets) rest := by
  have odd := length_write_nat_odd number
  obtain ⟨-, length⟩ := of_read_little_endian read
  refine ⟨(count + 1 - (writeNat number).length) / 2, ?_, ?_⟩
  · rw [List.length_cons]
    omega
  · intro none
    rw [shortest (by omega), octets_of_read_little_endian read, List.cons_append]

theorem spells_any_nat {number : Nat} (read : readAnyNat octets = .ok (number, rest)) :
    Spells (writeNat number) octets rest := by
  have sizes : UInt16.size = 256 ^ 2 ∧ UInt32.size = 256 ^ 4 ∧ UInt64.size = 256 ^ 8 := by decide
  obtain ⟨two, four, eight⟩ := write_nat_of_length number
  cases octets with
  | nil => cases read
  | cons first octets =>
      rw [readAnyNat] at read
      split at read
      · rename_i small
        cases read
        have written : writeNat first.toNat = [first] := by
          rw [UInt8.lt_iff_toNat_lt] at small
          rw [writeNat, if_pos (by exact small), UInt8.ofNat_toNat]
        rw [written]
        exact spells_written [first] rest
      · split at read
        · rename_i mark
          obtain ⟨small, -⟩ := of_read_little_endian read
          rw [mark]
          exact spells_marked rfl read (by apply length_write_nat_le <;> omega) two
        · split at read
          · rename_i mark
            obtain ⟨small, -⟩ := of_read_little_endian read
            rw [mark]
            exact spells_marked rfl read (by apply length_write_nat_le <;> omega) four
          · split at read
            · rename_i mark
              rw [mark]
              exact spells_marked rfl read (by apply length_write_nat_le <;> omega) eight
            · cases read

theorem spells_nat {bound number : Nat} (read : readNat bound octets = .ok (number, rest)) :
    Spells (writeNat number) octets rest := by
  obtain ⟨⟨found, after⟩, readFound, finished⟩ := bind_eq_ok.mp read
  dsimp only at finished
  split at finished
  · cases pure_eq_ok.mp finished
    exact spells_any_nat readFound
  · cases finished

theorem spells_octets {count : Nat} {front : List UInt8}
    (read : readOctets count octets = .ok (front, rest)) : Spells front octets rest := by
  rw [readOctets] at read
  split at read
  · cases read
    have whole := spells_written (octets.take count) (octets.drop count)
    rwa [List.take_append_drop] at whole
  · cases read

end Layout

namespace Cache

open Layout (Spells readWhole writeTable)

theorem spells_envelope {octets rest : List UInt8} {envelope : Envelope}
    (read : readEnvelope octets = .ok (envelope, rest)) :
    Spells (writeEnvelope envelope) octets rest := by
  obtain ⟨⟨mark, afterMark⟩, readMark, continues⟩ := bind_eq_ok.mp read
  obtain ⟨⟨number, afterNumber⟩, readNumber, hashed⟩ := bind_eq_ok.mp continues
  obtain ⟨⟨hash, afterHash⟩, readHash, stated⟩ := bind_eq_ok.mp hashed
  obtain ⟨⟨status, afterStatus⟩, readStatus, filled⟩ := bind_eq_ok.mp stated
  obtain ⟨⟨length, afterLength⟩, readLength, ends⟩ := bind_eq_ok.mp filled
  obtain ⟨⟨payload, afterPayload⟩, readPayload, finished⟩ := bind_eq_ok.mp ends
  cases pure_eq_ok.mp finished
  have known := (Layout.thrifty_nat _ readStatus).1
  have same : (if decide (status = 0) then 0 else 1) = status := by
    by_cases accepted : status = 0
    · simp [accepted]
    · simp only [accepted, decide_false, Bool.false_eq_true, if_false]
      omega
  obtain ⟨payloadLength, -⟩ := Layout.of_read_octets readPayload
  rw [writeEnvelope]
  dsimp only
  rw [same, payloadLength]
  exact (Layout.spells_octets readMark).append <| (Layout.spells_nat readNumber).append <|
    (Layout.spells_octets readHash).append <| (Layout.spells_nat readStatus).append <|
      (Layout.spells_nat readLength).append (Layout.spells_octets readPayload)

/-- What is known of a text that opens as an envelope. -/
theorem of_open_envelope {text : String} {envelope : Envelope}
    (opened : openEnvelope text = .ok envelope) :
    ∃ octets, Text.trim text = Base64.encode octets ∧ Spells (writeEnvelope envelope) octets [] := by
  rw [openEnvelope] at opened
  split at opened
  · cases opened
  · rename_i octets decoded
    split at opened
    · cases opened
    · split at opened
      · cases opened
      · rename_i found
        cases opened
        obtain ⟨answer, read, finished⟩ := bind_eq_ok.mp found
        split at finished
        · cases pure_eq_ok.mp finished
          exact ⟨octets, (Base64.encode_of_decode decoded).symm, spells_envelope read⟩
        · cases finished

/-- A text with one character replaced by another that still opens as the same envelope. -/
theorem envelope_of_damaged {envelope : Envelope} {before after : List Char} {char other : Char}
    (whole : Base64.encodeChars (writeEnvelope envelope) = before ++ char :: after)
    (opened : openEnvelope (String.ofList (before ++ other :: after)) = .ok envelope) :
    other = char := by
  obtain ⟨octets, trimmed, excess, length, same⟩ := of_open_envelope opened
  have chars : Text.trimChars (before ++ other :: after) = Base64.encodeChars octets := by
    have lists := congrArg String.toList trimmed
    simpa only [Text.trim, Base64.encode, String.toList_ofList] using lists
  have kept := Text.trim_chars_sublist (before ++ other :: after)
  have long := Base64.length_encode_chars octets
  have longWritten := Base64.length_encode_chars (writeEnvelope envelope)
  have shorter := kept.length_le
  rw [whole] at longWritten
  rw [chars] at shorter kept
  simp only [List.length_append, List.length_cons, List.length_nil] at length longWritten shorter
  -- nothing has been trimmed, since whole groups would have to be missing
  have unchanged : Base64.encodeChars octets = before ++ other :: after := by
    apply kept.eq_of_length
    simp only [List.length_append, List.length_cons]
    omega
  by_cases none : excess = 0
  · rw [same none, List.append_nil, whole] at unchanged
    simpa using unchanged.symm
  · -- two octets more take two signs of padding away
    have padded := Base64.count_padding (writeEnvelope envelope)
    have unpadded := Base64.count_padding octets
    rw [whole] at padded
    rw [unchanged] at unpadded
    simp only [List.count_append, List.count_cons] at padded unpadded
    split at padded <;> omega

/-- A text holds octets of a table together with a hash, which need not be theirs. -/
def Carries (text : String) (payload checksum : List UInt8) : Prop :=
  ∃ envelope, openEnvelope text = .ok envelope ∧ envelope.payload = payload ∧
    envelope.checksum = checksum

/-- The text of a table with any one character replaced by any other is refused, provided that the
octets it may carry then have the hash it carries only if neither has changed. -/
theorem decode_damaged {table : Table} {text damaged : String} {before after : List Char}
    {char other : Char} (encoded : encode table = .ok text)
    (original : text.toList = before ++ char :: after)
    (replaced : damaged.toList = before ++ other :: after) (different : other ≠ char)
    (apart : ∀ payload checksum, Carries damaged payload checksum →
      Digest.hash payload = checksum →
        payload = writeTable table ∧ checksum = Digest.hash (writeTable table)) :
    ∃ corruption, decode damaged = .error corruption := by
  cases decoded : decode damaged with
  | error corruption => exact ⟨corruption, rfl⟩
  | ok found =>
      obtain ⟨envelope, opened, continues⟩ := bind_eq_ok.mp decoded
      obtain ⟨payload, accepted, -⟩ := bind_eq_ok.mp continues
      have sealed := of_payload_of accepted
      subst sealed
      obtain ⟨rfl, -⟩ := apart _ _ ⟨_, opened, rfl, rfl⟩ rfl
      obtain ⟨-, -, rfl⟩ := of_encode encoded
      rw [Base64.encode, String.toList_ofList] at original
      rw [← String.ofList_toList (s := damaged), replaced] at opened
      exact absurd (envelope_of_damaged original opened) different

def bareTable : Table := ⟨"1", [], []⟩

def bareText : String := "UlRQQwISM1CUjBjGqJYlpCX42ppuAuModL3r7LRGV/TNR3dEmgAEATEAAA=="

/-- The text of the bare table with one character changed, so that it carries the version "2". -/
def damagedText : String := "UlRQQwISM1CUjBjGqJYlpCX42ppuAuModL3r7LRGV/TNR3dEmgAEATIAAA=="

def bareChecksum : List UInt8 :=
  [18, 51, 80, 148, 140, 24, 198, 168, 150, 37, 164, 37, 248, 218, 154, 110,
    2, 227, 40, 116, 189, 235, 236, 180, 70, 87, 244, 205, 71, 119, 68, 154]

theorem damaged_version_refused :
    encode bareTable = .ok bareText ∧ Carries damagedText [1, 0x32, 0, 0] bareChecksum ∧
      ∃ corruption, decode damagedText = .error corruption := by
  have encoded : encode bareTable = .ok bareText := eq_ok_of_toOption (by decide +kernel)
  have original : bareText.toList = bareText.toList.take 54 ++ 'E' :: "AAA==".toList := by
    decide +kernel
  have replaced : damagedText.toList = bareText.toList.take 54 ++ 'I' :: "AAA==".toList := by
    decide +kernel
  have opened : openEnvelope damagedText =
      .ok ⟨magic, format, bareChecksum, true, [1, 0x32, 0, 0]⟩ :=
    eq_ok_of_toOption (by decide +kernel)
  have changed : Digest.hash [1, 0x32, 0, 0] ≠ bareChecksum := by decide +kernel
  refine ⟨encoded, ⟨_, opened, rfl, rfl⟩, decode_damaged encoded original replaced (by decide) ?_⟩
  rintro payload checksum ⟨envelope, same, rfl, rfl⟩ fits
  rw [opened] at same
  cases same
  exact absurd fits changed

end Cache

end TagPolicy
