import TagPolicy.CommandLine.Invocation
import TagPolicy.CommandLine.Outcome
import TagPolicy.Text.Terminal

/-!
The help on the program and on its commands: what it is for, how it is called, and a line for each
command, operand and option. The lines of one kind have two columns, as wide as their widest entry
needs, and an option that a variable of the environment stands in for shows the variable's value.

Help is written for terminals, with the names of options in bold letters, and given out as plain
text. So a control sequence in the value of a variable is left out as well, and one that is not
complete takes the text up to the next name with it.
-/

namespace TagPolicy.CommandLine

/-- Lines of two columns. The second begins two blanks after the widest entry of the first, and its
entries keep to it when they have several lines. -/
def columns (rows : List (String × String)) : List String :=
  let width := rows.foldl (fun width row => max width (Text.plain row.1).length) 0 + 2
  let margin := padRight (width + 2) ""
  rows.map fun (left, right) =>
    let gap := padRight (width - (Text.plain left).length) ""
    "  " ++ left ++ gap ++ withMargin margin right

def titled (title : String) (rows : List (String × String)) : List String :=
  if rows.isEmpty then [] else ["", title] ++ columns rows

def OptionForm.valueWord (option : OptionForm) : String :=
  if option.kind.hasValue then s!" <{option.placeholder}>" else ""

def OptionForm.spelling (option : OptionForm) : String := "--" ++ option.name ++ option.valueWord

def OptionForm.row (environment : List (String × String)) (option : OptionForm) :
    String × String :=
  let short := match option.letter with
    | some letter => Text.bold s!"-{letter}" ++ ", "
    | none => "    "
  let standIn := match option.standIn with
    | some name =>
        let value := (environment.lookup name).getD ""
        s!" [env: {name}={value}]"
    | none => ""
  (short ++ Text.bold ("--" ++ option.name) ++ option.valueWord, option.summary ++ standIn)

/-- Whether a command can be called without the option and does something with it. -/
def OptionForm.isOptional (option : OptionForm) : Bool :=
  option.kind ≠ .help && option.kind ≠ .version && !option.required

def Operands.words : Operands → List String
  | none => []
  | one placeholder _ => [s!"<{placeholder}>"]
  | many placeholder _ => [s!"[{placeholder}]..."]
  | command => ["<COMMAND>"]

def Operands.rows (operands : Operands) : List (String × String) :=
  match operands with
  | one _ summary => operands.words.map (·, summary)
  | many _ summary => operands.words.map (·, summary)
  | none => []
  | command => []

namespace Form

def title (form : Form) : List String :=
  if form.operands = .command then [form.name] else [programForm.name, form.name]

def usage (form : Form) : String :=
  let optional := if form.options.any OptionForm.isOptional then ["[OPTIONS]"] else []
  let required := (form.options.filter OptionForm.required).map OptionForm.spelling
  "Usage: " ++ " ".intercalate (form.title ++ optional ++ required ++ form.operands.words)

def commandRows (form : Form) : List (String × String) :=
  if form.operands = .command then commandForms.map fun command => (command.name, command.summary)
  else []

def help (environment : List (String × String)) (form : Form) : String :=
  let lines := [form.summary, "", form.usage] ++ titled "Commands:" form.commandRows ++
    titled "Arguments:" form.operands.rows ++
    titled "Options:" (form.options.map (OptionForm.row environment))
  Text.plain (String.join (lines.map (· ++ "\n")))

end Form

/-- The help on the command of a name; on the program, if no command has it. -/
def helpOn (environment : List (String × String)) (name : String) : String :=
  ((commandForms.find? fun form => form.name = name).getD programForm).help environment

end TagPolicy.CommandLine
