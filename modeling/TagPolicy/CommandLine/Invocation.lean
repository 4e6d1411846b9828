import TagPolicy.CommandLine.Arguments
import TagPolicy.Context.Request

/-!
Invocations: a command with its operands, and the places that settings are taken from. A place that
no option names may be named by a variable of the environment.
-/

namespace TagPolicy.CommandLine

structure Question where
  user : String
  navigation : Navigation
  action : Action
  realm : String
  entityId : Option UInt64
  entityTags : List String
  /-- The attributes of the entity, each a name and a value around an equals sign. -/
  attributes : List String
  /-- The tags given to the user. -/
  given : List String
deriving Repr

inductive Command
  /-- Marks a new store with the schema version. -/
  | init
  | compile (file : String) (json : Bool)
  | install (file : String)
  /-- Decides a request by the rules in the store. -/
  | check (question : Question) (json : Bool)
  | tags
deriving Repr

structure Invocation where
  config : Option String
  store : Option String
  directory : Option String
  command : Command
deriving Repr

def isPath (value : String) : Bool := value ≠ ""

def isEntityId (value : String) : Bool := (Text.naturalBelow? UInt64.size value).isSome

def helpOption : OptionForm where
  name := "help"
  letter := some 'h'
  kind := .help
  summary := "Print help"

def versionOption : OptionForm where
  name := "version"
  letter := some 'V'
  kind := .version
  summary := "Print version"

def jsonOption (summary : String) : OptionForm := { name := "json", kind := .flag, summary }

def pathOption (name placeholder standIn summary : String) : OptionForm :=
  { name, kind := .single, placeholder, accepts := isPath, standIn := some standIn, summary }

def programForm : Form where
  name := "racktag"
  summary := "Compile, install and test tag-based access rules"
  options :=
    [{ pathOption "config" "CONFIG" "RACKTAG_CONFIG" "Path to configuration file" with
        letter := some 'c' },
      pathOption "store" "STORE" "RACKTAG_STORE" "Policy store directory (overrides config)",
      pathOption "directory" "DIRECTORY" "RACKTAG_DIRECTORY"
        "Tag and account directory file (overrides config)",
      { name := "verbose", letter := some 'v', kind := .flag, summary := "Enable verbose logging" },
      helpOption, versionOption]
  operands := .command

def initForm : Form := ⟨"init", "Prepare a new policy store", [helpOption], .none⟩

def compileForm : Form :=
  ⟨"compile", "Parse and compile a rule file", [jsonOption "Print the table as JSON", helpOption],
    .one "FILE" "Rule file"⟩

def installForm : Form :=
  ⟨"install", "Validate a rule file and make it the active rule source", [helpOption],
    .one "FILE" "Rule file"⟩

def checkForm : Form where
  name := "check"
  summary := "Evaluate one request against the installed rules"
  options :=
    [{ name := "user", letter := some 'u', kind := .single, placeholder := "USER",
        required := true, summary := "Account login name" },
      { name := "page", kind := .single, placeholder := "PAGE",
        summary := "Page (module) being visited" },
      { name := "tab", kind := .single, placeholder := "TAB", summary := "Tab within the page" },
      { name := "op", kind := .single, placeholder := "OP", summary := "Operation name" },
      { name := "realm", kind := .single, placeholder := "REALM",
        summary := "Target realm (e.g. object, rack)" },
      { name := "entity-id", kind := .single, placeholder := "ENTITY_ID", accepts := isEntityId,
        summary := "Target entity id" },
      { name := "entity-tag", kind := .many, placeholder := "ENTITY_TAGS",
        summary := "Target tag name (repeatable)" },
      { name := "attr", kind := .many, placeholder := "ATTRS",
        summary := "Target attribute as key=value (repeatable)" },
      { name := "give", kind := .many, placeholder := "GIVEN",
        summary := "Session tag granted to the subject (repeatable)" },
      jsonOption "Print the decision as JSON", helpOption]
  operands := .none

def tagsForm : Form := ⟨"tags", "Print the tag hierarchy", [helpOption], .none⟩

/-- The command that shows help. It has no options, and its operands are names of commands. -/
def helpForm : Form :=
  ⟨"help", "Print this message or the help of the given subcommand(s)", [],
    .many "COMMAND" "Print help for the subcommand(s)"⟩

def commandForms : List Form :=
  [initForm, compileForm, installForm, checkForm, tagsForm, helpForm]

def Question.ofGiven (given : Given) : Except Stop Question :=
  match given.value? "user" with
  | none => .error .misuse
  | some user =>
      let entityId := (given.value? "entity-id").bind (Text.naturalBelow? UInt64.size)
      .ok
        { user
          navigation := ⟨given.value? "page", given.value? "tab"⟩
          action := ((given.value? "op").map Action.mk).getD .access
          realm := (given.value? "realm").getD ""
          entityId := entityId.map UInt64.ofNat
          entityTags := given.valuesOf "entity-tag"
          attributes := given.valuesOf "attr"
          given := given.valuesOf "give" }

def readHelp : List String → Stop
  | [] => .help programForm.name
  | [name] => if name ∈ commandForms.map Form.name then .help name else .misuse
  | _ => .misuse

def Command.read (name : String) (arguments : List String) : Except Stop Command :=
  match name with
  | "init" => do
      let _ ← initForm.read arguments
      pure .init
  | "compile" => do
      let given ← compileForm.read arguments
      pure (.compile (← given.operand) (given.has "json"))
  | "install" => do
      let given ← installForm.read arguments
      pure (.install (← given.operand))
  | "check" => do
      let given ← checkForm.read arguments
      pure (.check (← Question.ofGiven given) (given.has "json"))
  | "tags" => do
      let _ ← tagsForm.read arguments
      pure .tags
  | "help" => .error (readHelp arguments)
  | _ => .error .misuse

def Invocation.read (environment : List (String × String)) (arguments : List String) :
    Except Stop Invocation := do
  let given ← programForm.read arguments
  let command ← Command.read (← given.operand) given.rest
  let given ← programForm.complete environment (← given.settle)
  pure ⟨given.value? "config", given.value? "store", given.value? "directory", command⟩

end TagPolicy.CommandLine
