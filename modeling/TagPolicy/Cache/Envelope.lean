import TagPolicy.Cache.Base64
import TagPolicy.Cache.Digest
import TagPolicy.Cache.Layout
import TagPolicy.Text.Blank

/-!
Tables as one line of text. The octets of a table are put into an envelope with a mark, a format
number, their hash and a status, and the envelope is written in base sixty-four. `decode` checks all
of this in a fixed order, and the references between predicates at the end, so what it gives back
can be used without further checks.
-/

namespace TagPolicy.Cache

open Layout (ReadFault)

def magic : List UInt8 := [0x52, 0x54, 0x50, 0x43]

def format : Nat := 2

def maxOctets : Nat := 16 * 1024 * 1024

structure Envelope where
  magic : List UInt8
  format : Nat
  checksum : List UInt8
  /-- Whether the octets hold a table; the other status says that there was none to keep. -/
  acknowledged : Bool
  payload : List UInt8
deriving DecidableEq, Repr

inductive EncodeFault
  | tableTooLarge
  | envelopeTooLarge
deriving DecidableEq, Repr

def EncodeFault.message : EncodeFault → String
  | .tableTooLarge => "cannot encode table: the size limit has been reached"
  | .envelopeTooLarge => "cannot encode cache envelope: the size limit has been reached"

inductive Corruption
  | notBase64
  | badEnvelope
  | badMagic
  | otherFormat (found : Nat)
  | notAcknowledged
  | emptyPayload
  | checksumMismatch
  | badPayload (fault : ReadFault)
  | badReference (reference : BadReference)
  /-- A sound table for another version of the store. -/
  | otherSchema (found expected : String)
deriving DecidableEq, Repr

def Corruption.message : Corruption → String
  | .notBase64 => "base64"
  | .badEnvelope => "envelope"
  | .badMagic => "bad magic"
  | .otherFormat found => s!"format {found} (expected {format})"
  | .notAcknowledged => "status is not ACK"
  | .emptyPayload => "empty payload"
  | .checksumMismatch => "checksum mismatch"
  | .badPayload .malformed => "payload"
  | .badPayload (.operations fault) => "payload: " ++ fault.message
  | .badReference reference => reference.message
  | .otherSchema found expected => s!"schema version {found} (expected {expected})"

def writeEnvelope (envelope : Envelope) : List UInt8 :=
  envelope.magic ++ (Layout.writeNat envelope.format ++ (envelope.checksum ++
    (Layout.writeNat (if envelope.acknowledged then 0 else 1) ++
      (Layout.writeNat envelope.payload.length ++ envelope.payload))))

def readEnvelope (octets : List UInt8) : Except ReadFault (Envelope × List UInt8) := do
  let (magic, rest) ← Layout.readOctets 4 octets
  let (format, rest) ← Layout.readNat UInt16.size rest
  let (checksum, rest) ← Layout.readOctets 32 rest
  let (status, rest) ← Layout.readNat 2 rest
  let (length, rest) ← Layout.readLength rest
  let (payload, rest) ← Layout.readOctets length rest
  pure (⟨magic, format, checksum, status = 0, payload⟩, rest)

def encode (table : Table) : Except EncodeFault String :=
  let payload := Layout.writeTable table
  if maxOctets < payload.length then .error .tableTooLarge
  else
    let octets := writeEnvelope ⟨magic, format, Digest.hash payload, true, payload⟩
    if maxOctets < octets.length then .error .envelopeTooLarge
    else .ok (Base64.encode octets)

/-- The envelope that a text writes; blanks around the text do not matter. -/
def openEnvelope (text : String) : Except Corruption Envelope :=
  match Base64.decode (Text.trim text) with
  | none => .error .notBase64
  | some octets =>
      if maxOctets < octets.length then .error .badEnvelope
      else
        match Layout.readWhole readEnvelope octets with
        | .error _ => .error .badEnvelope
        | .ok envelope => .ok envelope

def payloadOf (envelope : Envelope) : Except Corruption (List UInt8) :=
  if envelope.magic ≠ magic then .error .badMagic
  else if envelope.format ≠ format then .error (.otherFormat envelope.format)
  else if envelope.acknowledged = false then .error .notAcknowledged
  else if envelope.payload = [] then .error .emptyPayload
  else if Digest.hash envelope.payload ≠ envelope.checksum then .error .checksumMismatch
  else .ok envelope.payload

/-- The table that octets hold, if it refers only to predicates that are there. -/
def tableOf (payload : List UInt8) : Except Corruption Table :=
  match Layout.readWhole Layout.readTable payload with
  | .error fault => .error (.badPayload fault)
  | .ok table =>
      match table.firstBadReference with
      | some reference => .error (.badReference reference)
      | none => .ok table

def decode (text : String) : Except Corruption Table := do
  let envelope ← openEnvelope text
  let payload ← payloadOf envelope
  tableOf payload

end TagPolicy.Cache
