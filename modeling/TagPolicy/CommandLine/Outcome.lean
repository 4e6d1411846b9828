import TagPolicy.CommandLine.Json
import TagPolicy.Failure

/-!
Outcomes of commands: the exit status, and what is written to the standard output and to the
standard error output. A complaint is a message and the chain of its causes, the outermost first.
-/

namespace TagPolicy.CommandLine

structure Outcome where
  status : UInt32
  output : String
  report : String
deriving DecidableEq, Repr

structure Complaint where
  message : String
  causes : List String
deriving DecidableEq, Repr

def withMargin (margin text : String) : String :=
  ("\n" ++ margin).intercalate (text.splitOn "\n")

def padLeft (width : Nat) (text : String) : String :=
  String.ofList (List.replicate (width - text.length) ' ') ++ text

def padRight (width : Nat) (text : String) : String :=
  text ++ String.ofList (List.replicate (width - text.length) ' ')

def numberedCauses (number : Nat) : List String → List String
  | [] => []
  | cause :: causes =>
      (padLeft 5 (toString number) ++ ": " ++ withMargin "       " cause) ::
        numberedCauses (number + 1) causes

def causeLines : List String → List String
  | [cause] => ["    " ++ withMargin "    " cause]
  | causes => numberedCauses 0 causes

def Complaint.text (complaint : Complaint) : String :=
  match complaint.causes with
  | [] => complaint.message
  | causes => complaint.message ++ "\n\nCaused by:\n" ++ "\n".intercalate (causeLines causes)

def Complaint.within (complaint : Complaint) (message : String) : Complaint :=
  ⟨message, complaint.message :: complaint.causes⟩

def Complaint.ofFailure : Failure → Complaint
  | .source error => ⟨(Failure.source error).message, [error.message]⟩
  | failure => ⟨failure.message, []⟩

namespace Outcome

def success (output : String) : Outcome := ⟨0, output, ""⟩

def failed (complaint : Complaint) : Outcome := ⟨1, "", "Error: " ++ complaint.text ++ "\n"⟩

def badSource (file : String) (error : Language.SourceError) : Outcome :=
  ⟨1, "", file ++ ":" ++ error.message ++ "\n"⟩

def misuse (usage : String) : Outcome := ⟨2, "", usage⟩

/-- A decision, and whether it is shown in JSON; a denial has the status of a failure. -/
def ofDecision (decision : Decision) (json : Bool) : Outcome :=
  let text :=
    if json then decision.toJson.pretty
    else
      decision.effect.render ++
        match decision.rule with
        | some order => s!" (rule #{order.toNat})"
        | none => " (no rule matched)"
  ⟨if decision.isAllowed then 0 else 2, text ++ "\n", ""⟩

end Outcome

def ruleLine (table : Table) (rule : Rule) : String :=
  "#" ++ padRight 3 (toString rule.order.toNat) ++ " line " ++
    padRight 4 (toString rule.line.toNat) ++ " " ++ padRight 5 rule.effect.render ++ " " ++
    table.describe rule.condition ++ "\n"

def tableText (table : Table) : String :=
  if table.isEmpty then "(no rules: every request is denied)\n"
  else String.join (table.rules.map (ruleLine table))

def tagLine (tag : Tag) (depth : Nat) : String :=
  String.join (List.replicate depth "  ") ++ tag.name ++ s!" ({tag.id.toNat})\n"

def treeText (tree : TagTree) : String :=
  String.join (tree.depthFirst.map fun (tag, depth) => tagLine tag depth)

end TagPolicy.CommandLine
