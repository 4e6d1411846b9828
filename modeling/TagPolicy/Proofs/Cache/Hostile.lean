import TagPolicy.Proofs.Cache.Exactness
import TagPolicy.Proofs.Cache.Rereading
import TagPolicy.Proofs.Policy.Strict

/-!
Nothing is supposed here of the text in a cache slot; it may have been written by anyone, with a hash
that fits. A table that is decoded from it is well-formed all the same, and it fits into a slot again.
-/

namespace TagPolicy.Cache

open Layout (Thrifty readTable readWhole thrifty_nat of_read_octets writeTable)
open Outcome (bind_eq_ok pure_eq_ok)

theorem thrifty_envelope : Thrifty readEnvelope writeEnvelope fun _ => True := by
  intro octets envelope rest read
  obtain ⟨⟨mark, afterMark⟩, readMark, continues⟩ := bind_eq_ok.mp read
  obtain ⟨⟨number, afterNumber⟩, readNumber, hashed⟩ := bind_eq_ok.mp continues
  obtain ⟨⟨hash, afterHash⟩, readHash, stated⟩ := bind_eq_ok.mp hashed
  obtain ⟨⟨status, afterStatus⟩, readStatus, filled⟩ := bind_eq_ok.mp stated
  obtain ⟨⟨length, afterLength⟩, readLength, ends⟩ := bind_eq_ok.mp filled
  obtain ⟨⟨payload, afterPayload⟩, readPayload, finished⟩ := bind_eq_ok.mp ends
  cases pure_eq_ok.mp finished
  obtain ⟨markLength, markTaken⟩ := of_read_octets readMark
  obtain ⟨-, numberTaken⟩ := thrifty_nat _ readNumber
  obtain ⟨hashLength, hashTaken⟩ := of_read_octets readHash
  obtain ⟨known, statusTaken⟩ := thrifty_nat _ readStatus
  obtain ⟨-, lengthTaken⟩ := thrifty_nat _ readLength
  obtain ⟨payloadLength, payloadTaken⟩ := of_read_octets readPayload
  have same : (if decide (status = 0) then 0 else 1) = status := by
    by_cases accepted : status = 0
    · simp [accepted]
    · simp only [accepted, decide_false, Bool.false_eq_true, if_false]
      omega
  simp only [writeEnvelope, List.length_append, same]
  rw [payloadLength]
  exact ⟨trivial, by omega⟩

theorem length_of_open_envelope {text : String} {envelope : Envelope}
    (opened : openEnvelope text = .ok envelope) :
    (writeEnvelope envelope).length ≤ maxOctets := by
  rw [openEnvelope] at opened
  split at opened
  · cases opened
  · split at opened
    · cases opened
    · rename_i octets _ small
      split at opened
      · cases opened
      · rename_i found
        cases opened
        exact Nat.le_trans (thrifty_envelope.whole found).2 (Nat.le_of_not_lt small)

/-- The checks leave nothing of an envelope open but its payload. -/
theorem of_payload_of {envelope : Envelope} {payload : List UInt8}
    (sound : payloadOf envelope = .ok payload) :
    envelope = ⟨magic, format, Digest.hash payload, true, payload⟩ := by
  obtain ⟨mark, number, hash, acknowledged, content⟩ := envelope
  simp only [payloadOf, ne_eq, ite_not] at sound
  split at sound
  · rename_i marked
    split at sound
    · rename_i numbered
      split at sound
      · cases sound
      · rename_i stated
        split at sound
        · cases sound
        · split at sound
          · rename_i hashed
            cases sound
            rw [marked, numbered, ← hashed, Bool.of_not_eq_false stated]
          · cases sound
    · cases sound
  · cases sound

theorem of_table_of {payload : List UInt8} {table : Table} (tabled : tableOf payload = .ok table) :
    readWhole readTable payload = .ok table ∧ table.firstBadReference = none := by
  rw [tableOf] at tabled
  split at tabled
  · cases tabled
  · rename_i read
    split at tabled
    · cases tabled
    · rename_i sound
      cases tabled
      exact ⟨read, sound⟩

/-- What is known of a text that is decoded as a table. -/
theorem of_decode {text : String} {table : Table} (decoded : decode text = .ok table) :
    ∃ payload, readWhole readTable payload = .ok table ∧ table.firstBadReference = none ∧
      (writeEnvelope ⟨magic, format, Digest.hash payload, true, payload⟩).length ≤ maxOctets := by
  obtain ⟨envelope, opened, continues⟩ := bind_eq_ok.mp decoded
  obtain ⟨payload, accepted, tabled⟩ := bind_eq_ok.mp continues
  have fits := length_of_open_envelope opened
  rw [of_payload_of accepted] at fits
  obtain ⟨read, sound⟩ := of_table_of tabled
  exact ⟨payload, read, sound, fits⟩

/-- A decoded table takes no more octets than it was decoded from. -/
theorem encode_of_decode {text : String} {table : Table} (decoded : decode text = .ok table) :
    ∃ again, encode table = .ok again := by
  obtain ⟨payload, read, -, fits⟩ := of_decode decoded
  have shorter := (Layout.thrifty_table.whole read).2
  have header : (Layout.writeNat (writeTable table).length).length ≤
      (Layout.writeNat payload.length).length := by
    rw [Layout.length_write_nat, Layout.length_write_nat]
    repeat' split
    all_goals omega
  rw [length_write_envelope] at fits
  refine ⟨_, encode_of_fits (by omega) ?_⟩
  rw [envelopeOf, length_write_envelope]
  omega

end TagPolicy.Cache
