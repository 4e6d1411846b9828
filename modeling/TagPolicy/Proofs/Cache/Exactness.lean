import TagPolicy.Proofs.Policy.Soundness

/-!
Decoding undoes encoding for exactly the well-formed tables. Whether a table can be encoded depends
on nothing but the number of octets it takes.
-/

namespace TagPolicy.Cache

open Layout (writeTable)

section Size

variable {table : Table}

/-- An envelope adds its mark, its format, a hash, a status and the length of what it holds. -/
theorem length_write_envelope (payload : List UInt8) :
    (writeEnvelope ⟨magic, format, Digest.hash payload, true, payload⟩).length =
      38 + ((Layout.writeNat payload.length).length + payload.length) := by
  have magicLength : magic.length = 4 := rfl
  have formatLength : (Layout.writeNat format).length = 1 := rfl
  have statusLength : (Layout.writeNat 0).length = 1 := rfl
  simp only [writeEnvelope, List.length_append, Digest.length_hash, magicLength,
    formatLength, if_true, statusLength]
  omega

theorem encode_of_fits (payload : (writeTable table).length ≤ maxOctets)
    (envelope : (writeEnvelope (envelopeOf table)).length ≤ maxOctets) :
    encode table = .ok (Base64.encode (writeEnvelope (envelopeOf table))) := by
  rw [encode]
  dsimp only
  rw [if_neg (Nat.not_lt.mpr payload)]
  exact if_neg (Nat.not_lt.mpr envelope)

/-- The number of a length never takes more than nine octets. -/
theorem encode_of_short (table : Table) (short : (writeTable table).length + 47 ≤ maxOctets) :
    ∃ text, encode table = .ok text := by
  have header : (Layout.writeNat (writeTable table).length).length ≤ 9 := by
    apply Layout.length_write_nat_le <;> omega
  have envelope := length_write_envelope (writeTable table)
  refine ⟨_, encode_of_fits (by omega) ?_⟩
  rw [envelopeOf]
  omega

end Size

theorem decode_encode_refused {table : Table} {text : String} (encoded : encode table = .ok text)
    (malformed : ¬ table.WellFormed) : ∃ corruption, decode text = .error corruption := by
  cases decoded : decode text with
  | error corruption => exact ⟨corruption, rfl⟩
  | ok other =>
      -- only the table itself could come back, and it passes no check of the decoder
      cases eq_of_decode_encode encoded decoded
      rw [decode_encode encoded, tableOf] at decoded
      have read := Layout.read_whole_write_table (length_write_table_lt encoded)
      by_cases shallow : Layout.Shallow table
      · rw [read.1 shallow] at decoded
        dsimp only at decoded
        split at decoded
        · cases decoded
        · exact absurd (Table.well_formed_iff.mpr ⟨shallow, ‹_›⟩) malformed
      · obtain ⟨fault, refused⟩ := read.2 shallow
        rw [refused] at decoded
        cases decoded

/-- The text of a table gives back the table if it is well-formed and is refused if it is not, and
what rules compile to is always well-formed. -/
theorem decode_encode_exact :
    (∀ table text, encode table = .ok text →
      (table.WellFormed → decode text = .ok table) ∧
        (¬ table.WellFormed → ∃ corruption, decode text = .error corruption)) ∧
      ∀ schemaVersion source table,
        Table.compile schemaVersion source = .ok table → table.WellFormed := by
  refine ⟨?_, fun schemaVersion source table => Table.well_formed_of_compile⟩
  intro table text encoded
  refine ⟨?_, decode_encode_refused encoded⟩
  intro wellFormed
  obtain ⟨shallow, sound⟩ := Table.well_formed_iff.mp wellFormed
  exact decode_encode_sound encoded shallow sound

/-- A table with empty connectives and a chain of references, which no text compiles to. -/
def layeredTable : Table where
  schemaVersion := "1"
  predicates := [⟨"p", .any []⟩, ⟨"q", .not (.predicate 0)⟩]
  rules := [⟨.all [], .allow, 1, 1⟩, ⟨.all [.predicate 1, .tag "a"], .deny, 2, 7⟩]

def circularTable : Table := ⟨"1", [⟨"p", .predicate 0⟩], []⟩

theorem layered_comes_back_circular_does_not :
    (∃ text, encode layeredTable = .ok text ∧ decode text = .ok layeredTable) ∧
      (∃ text corruption, encode circularTable = .ok text ∧ decode text = .error corruption) ∧
        ∃ table, Table.compile "1" "allow true" = .ok table ∧ table.WellFormed := by
  have layered : layeredTable.WellFormed := by
    rw [Table.well_formed_iff]
    refine ⟨⟨?_, ?_⟩, ?_⟩ <;> decide
  have circular : ¬ circularTable.WellFormed := by
    rw [Table.well_formed_iff]
    rintro ⟨-, sound⟩
    exact absurd sound (by decide)
  refine ⟨?_, ?_, ?_⟩
  · obtain ⟨text, encoded⟩ := encode_of_short layeredTable (by decide)
    exact ⟨text, encoded, (decode_encode_exact.1 _ _ encoded).1 layered⟩
  · obtain ⟨text, encoded⟩ := encode_of_short circularTable (by decide)
    obtain ⟨corruption, refused⟩ := (decode_encode_exact.1 _ _ encoded).2 circular
    exact ⟨text, corruption, encoded, refused⟩
  · have compiles : (Table.compile "1" "allow true").isOk = true := by decide +kernel
    cases compiled : Table.compile "1" "allow true" with
    | error failure =>
        rw [compiled] at compiles
        cases compiles
    | ok table => exact ⟨table, rfl, decode_encode_exact.2 _ _ _ compiled⟩

end TagPolicy.Cache
