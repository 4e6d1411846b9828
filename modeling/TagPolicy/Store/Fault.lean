import TagPolicy.Text.Octets

/-!
Failures of stores.
-/

namespace TagPolicy

inductive StorageFault
  /-- The store is out of reach. -/
  | switchedOff
  | unreadable (slot : String)
  | unwritable (slot : String)
  /-- A slot whose octets are no text. -/
  | notText (slot : String) (fault : Text.OctetFault)
  /-- A store that the system does not open. -/
  | system (report : String)
deriving DecidableEq, Repr

def StorageFault.message : StorageFault → String
  | .switchedOff => "memory store switched off"
  | .unreadable slot => "slot " ++ slot ++ " is write-only"
  | .unwritable slot => "slot " ++ slot ++ " is read-only"
  | .notText slot fault => "slot " ++ slot ++ " is not UTF-8: " ++ fault.message
  | .system report => "IO error: " ++ report

end TagPolicy
