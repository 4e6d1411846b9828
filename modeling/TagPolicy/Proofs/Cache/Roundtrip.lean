import TagPolicy.Cache.Envelope
import TagPolicy.Proofs.Cache.Base64
import TagPolicy.Proofs.Cache.Layout

/-!
What becomes of the text of a table when it is decoded: the table itself if none of its conditions is
too deep and all its references point to predicates that are there, and a refusal otherwise. No text
of a table is ever taken for another table.
-/

namespace TagPolicy

theorem Digest.length_octets_of_words (words : List UInt32) :
    (words.flatMap octetsOfWord).length = 4 * words.length := by
  induction words with
  | nil => rfl
  | cons word words induction =>
      have word : (octetsOfWord word).length = 4 := rfl
      rw [List.flatMap_cons, List.length_append, induction, List.length_cons, word]
      omega

theorem Digest.length_hash (octets : List UInt8) : (hash octets).length = 32 := by
  rw [hash, length_octets_of_words, Vector.length_toList]

namespace Cache

open Layout (Shallow readWhole readTable writeTable)
open Outcome (bind_eq_ok ok_bind)

theorem read_envelope_write_envelope {envelope : Envelope} (mark : envelope.magic.length = 4)
    (small : envelope.format < UInt16.size) (hash : envelope.checksum.length = 32)
    (fits : envelope.payload.length < UInt64.size) :
    readWhole readEnvelope (writeEnvelope envelope) = .ok envelope := by
  obtain ⟨magic, format, checksum, acknowledged, payload⟩ := envelope
  dsimp only at mark small hash fits
  have wide : UInt16.size ≤ UInt64.size := by decide
  have status : (if acknowledged then 0 else 1) < 2 := by split <;> decide
  have last := Layout.read_octets_append (rfl : payload.length = payload.length) []
  rw [List.append_nil] at last
  rw [writeEnvelope, readWhole, readEnvelope]
  dsimp only
  rw [Layout.read_octets_append mark, ok_bind]
  dsimp only
  rw [Layout.read_nat_write_nat small wide, ok_bind]
  dsimp only
  rw [Layout.read_octets_append hash, ok_bind]
  dsimp only
  rw [Layout.read_nat_write_nat status (by decide), ok_bind]
  dsimp only
  rw [Layout.readLength, Layout.read_nat_write_nat fits (Nat.le_refl _), ok_bind]
  dsimp only
  rw [last]
  cases acknowledged <;> rfl

def envelopeOf (table : Table) : Envelope :=
  ⟨magic, format, Digest.hash (writeTable table), true, writeTable table⟩

theorem of_encode {table : Table} {text : String} (encoded : encode table = .ok text) :
    (writeTable table).length ≤ maxOctets ∧
      (writeEnvelope (envelopeOf table)).length ≤ maxOctets ∧
        text = Base64.encode (writeEnvelope (envelopeOf table)) := by
  rw [encode] at encoded
  dsimp only at encoded
  split at encoded
  · cases encoded
  · rename_i payload
    split at encoded
    · cases encoded
    · rename_i envelope
      cases encoded
      exact ⟨Nat.le_of_not_lt payload, Nat.le_of_not_lt envelope, rfl⟩

theorem open_envelope_encode {table : Table} {text : String} (encoded : encode table = .ok text) :
    openEnvelope text = .ok (envelopeOf table) := by
  obtain ⟨payload, envelope, rfl⟩ := of_encode encoded
  have most : maxOctets < UInt64.size := by decide
  have small : format < UInt16.size := by decide
  rw [openEnvelope, Base64.trim_encode, Base64.decode_encode]
  dsimp only
  rw [if_neg (Nat.not_lt.mpr envelope), read_envelope_write_envelope rfl small
    (Digest.length_hash _) (Nat.lt_of_le_of_lt payload most)]

theorem not_blank_of_encode {table : Table} {text : String} (encoded : encode table = .ok text) :
    Text.isBlankText text = false := by
  obtain ⟨-, -, rfl⟩ := of_encode encoded
  apply Base64.not_blank_encode
  rw [writeEnvelope]
  simp [envelopeOf, magic]

theorem payload_of_envelope_of (table : Table) :
    payloadOf (envelopeOf table) = .ok (writeTable table) := by
  have present : writeTable table ≠ [] :=
    List.ne_nil_of_length_pos (Layout.faithful_table.positive table)
  simp [payloadOf, envelopeOf, present]

/-- The text of a table is decoded as the octets of the table are read. -/
theorem decode_encode {table : Table} {text : String} (encoded : encode table = .ok text) :
    decode text = tableOf (writeTable table) := by
  rw [decode, open_envelope_encode encoded, ok_bind, payload_of_envelope_of, ok_bind]

theorem length_write_table_lt {table : Table} {text : String} (encoded : encode table = .ok text) :
    (writeTable table).length < UInt32.size := by
  have most : maxOctets < UInt32.size := by decide
  exact Nat.lt_of_le_of_lt (of_encode encoded).1 most

/-- A sound table comes back. -/
theorem decode_encode_sound {table : Table} {text : String} (encoded : encode table = .ok text)
    (shallow : Shallow table) (sound : table.firstBadReference = none) :
    decode text = .ok table := by
  have read := (Layout.read_whole_write_table (length_write_table_lt encoded)).1 shallow
  rw [decode_encode encoded, tableOf, read]
  dsimp only
  rw [sound]

/-- Whatever comes back is the table that was kept. -/
theorem eq_of_decode_encode {table other : Table} {text : String}
    (encoded : encode table = .ok text) (decoded : decode text = .ok other) : other = table := by
  rw [decode_encode encoded, tableOf] at decoded
  have read := Layout.read_whole_write_table (length_write_table_lt encoded)
  by_cases shallow : Shallow table
  · rw [read.1 shallow] at decoded
    dsimp only at decoded
    split at decoded
    · cases decoded
    · cases decoded
      rfl
  · obtain ⟨fault, refused⟩ := read.2 shallow
    rw [refused] at decoded
    cases decoded

end Cache

end TagPolicy
