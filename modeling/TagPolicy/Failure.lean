import TagPolicy.Cache.Envelope
import TagPolicy.Policy.Compilation
import TagPolicy.Store.Fault
import TagPolicy.Tag.Tree

/-!
Everything that can go wrong between a rule text and a decision, and the compilation of a text,
which is where the first two kinds arise.
-/

namespace TagPolicy

inductive Failure
  | source (error : Language.SourceError)
  | compile (fault : CompileFault)
  | encode (fault : Cache.EncodeFault)
  | corrupt (corruption : Cache.Corruption)
  | storage (fault : StorageFault)
  /-- A store of another version than expected, or of none. -/
  | schemaMismatch (expected : String) (found : Option String)
  | tree (fault : TreeFault)
deriving DecidableEq, Repr

def Failure.message : Failure → String
  | .source error => "Syntax error at " ++ error.message
  | .compile fault => "Internal compile error: " ++ fault.message
  | .encode fault => "Internal compile error: " ++ fault.message
  | .corrupt corruption => "Compiled policy cache corrupted: " ++ corruption.message
  | .storage fault => "Storage unavailable: " ++ fault.message
  | .schemaMismatch expected found =>
      "Schema version mismatch: expected " ++ expected ++ ", found " ++ found.getD "<absent>" ++
        "; an administrative upgrade is required"
  | .tree (.invalid fault) => "Invalid tag: " ++ fault.message
  | .tree (.cycle names) => "Tag hierarchy cycle: " ++ " -> ".intercalate names

def Table.compile (schemaVersion text : String) : Except Failure Table :=
  match Language.Document.parse text with
  | .error error => .error (.source error)
  | .ok document =>
      match Table.ofDocument schemaVersion document with
      | .error fault => .error (.compile fault)
      | .ok table => .ok table

end TagPolicy
