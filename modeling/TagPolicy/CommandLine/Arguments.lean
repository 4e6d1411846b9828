/-!
The reading of command-line arguments. A long option is a word after two dashes, and its value
follows an equals sign or is the next argument; short options are single letters after one dash, of
which the last may have its value attached. A value that is an argument of its own does not begin
with a dash, unless it is the dash alone. After two dashes alone, arguments are never options.

Arguments are judged in their order, so what is asked for after a mistake is not answered. Only a
value that is an argument of its own is judged later, with the next argument, and the name of a
command lets its own arguments go first. The value of an option that is not given may be taken from
a variable of the environment.
-/

namespace TagPolicy.CommandLine

inductive OptionKind
  /-- At most once, without a value. -/
  | flag
  /-- At most once, with a value. -/
  | single
  /-- Any number of times, each with a value. -/
  | many
  | help
  | version
deriving DecidableEq, Repr

def OptionKind.hasValue : OptionKind → Bool
  | single => true
  | many => true
  | flag => false
  | help => false
  | version => false

structure OptionForm where
  name : String
  letter : Option Char := none
  kind : OptionKind
  /-- The word that stands for a value. -/
  placeholder : String := ""
  /-- Whether a value is a value of this option. -/
  accepts : String → Bool := fun _ => true
  /-- Whether the command needs the option. -/
  required : Bool := false
  /-- The variable of the environment that stands in for the option. -/
  standIn : Option String := none
  summary : String

/-- The operands of a command, with the word that stands for one and what it is. -/
inductive Operands
  | none
  /-- One operand, which is not empty. -/
  | one (placeholder summary : String)
  /-- Any number of operands. -/
  | many (placeholder summary : String)
  /-- The name of another command, and the arguments after it are its. -/
  | command
deriving DecidableEq, Repr

structure Form where
  name : String
  summary : String
  options : List OptionForm
  operands : Operands

inductive Stop
  | misuse
  | version
  | help (command : String)
deriving DecidableEq, Repr

structure Given where
  values : List (String × String)
  /-- The last option, if its value was an argument of its own and is not judged yet. -/
  unsettled : Option (OptionForm × String)
  operands : List String
  rest : List String

namespace Given

def nothing : Given := ⟨[], none, [], []⟩

def valuesOf (given : Given) (name : String) : List String :=
  (given.values.filter fun entry => entry.1 = name).map Prod.snd

def value? (given : Given) (name : String) : Option String := (given.valuesOf name).head?

def has (given : Given) (name : String) : Bool := given.values.any fun entry => entry.1 = name

/-- One more option; an option that may be given once is not given twice, and its value has to be
one of its values. -/
def add (given : Given) (option : OptionForm) (value : String) : Except Stop Given :=
  if option.kind ≠ .many ∧ given.has option.name then .error .misuse
  else if option.kind.hasValue ∧ option.accepts value = false then .error .misuse
  else .ok { given with values := given.values ++ [(option.name, value)] }

def leave (given : Given) (option : OptionForm) (value : String) : Given :=
  { given with unsettled := some (option, value) }

def settle (given : Given) : Except Stop Given :=
  match given.unsettled with
  | none => .ok given
  | some (option, value) => ({ given with unsettled := none } : Given).add option value

def addOperand (given : Given) (operands : Operands) (operand : String) : Except Stop Given :=
  let more : Given := { given with operands := given.operands ++ [operand] }
  match operands with
  | .one _ _ => if given.operands = [] ∧ operand ≠ "" then .ok more else .error .misuse
  | .many _ _ => .ok more
  | .none => .error .misuse
  | .command => .error .misuse

def operand (given : Given) : Except Stop String :=
  match given.operands with
  | [operand] => .ok operand
  | _ => .error .misuse

end Given

def isValue (argument : String) : Bool :=
  argument = "-" || argument.toList.head? ≠ some '-'

def nextValue : List String → Except Stop (String × List String)
  | argument :: rest => if isValue argument then .ok (argument, rest) else .error .misuse
  | [] => .error .misuse

def addBare (form : Form) (given : Given) (option : OptionForm) (rest : List String) :
    Except Stop (Given × List String) :=
  match option.kind with
  | .help => .error (.help form.name)
  | .version => .error .version
  | .flag => do
      let given ← given.add option ""
      pure (given, rest)
  | _ => do
      let (value, rest) ← nextValue rest
      pure (given.leave option value, rest)

def addLong (form : Form) (given : Given) (name : String) (attached : Option String)
    (rest : List String) : Except Stop (Given × List String) :=
  match form.options.find? (fun option => option.name = name), attached with
  | none, _ => .error .misuse
  | some option, none => addBare form given option rest
  | some option, some value =>
      if option.kind.hasValue then do
        let given ← given.add option value
        pure (given, rest)
      else .error .misuse

def addShort (form : Form) (given : Given) (rest : List String) :
    List Char → Except Stop (Given × List String)
  | [] => .ok (given, rest)
  | letter :: letters =>
      match form.options.find? (fun option => option.letter = some letter) with
      | none => .error .misuse
      | some option =>
          if option.kind.hasValue then
            match letters with
            | [] => addBare form given option rest
            | '=' :: value => do
                let given ← given.add option (String.ofList value)
                pure (given, rest)
            | value => do
                let given ← given.add option (String.ofList value)
                pure (given, rest)
          else do
            let (given, rest) ← addBare form given option rest
            addShort form given rest letters

/-- A name and what follows its first equals sign, if it has one. -/
def splitValue (word : List Char) : String × Option String :=
  let name := word.takeWhile (· ≠ '=')
  match word.dropWhile (· ≠ '=') with
  | [] => (String.ofList name, none)
  | _ :: value => (String.ofList name, some (String.ofList value))

/-- What arguments say that come after others; at most `limit` of them are looked at. -/
def readArguments (form : Form) : Nat → Given → List String → Except Stop Given
  | _, given, [] => given.settle
  | 0, given, _ => given.settle
  | limit + 1, given, argument :: rest =>
      match argument.toList with
      | ['-', '-'] => do
          let given ← given.settle
          rest.foldlM (fun given operand => given.addOperand form.operands operand) given
      | '-' :: '-' :: word => do
          let given ← given.settle
          let (name, attached) := splitValue word
          let (given, rest) ← addLong form given name attached rest
          readArguments form limit given rest
      | '-' :: first :: letters => do
          let given ← given.settle
          let (given, rest) ← addShort form given rest (first :: letters)
          readArguments form limit given rest
      | _ =>
          if form.operands = .command then .ok { given with operands := [argument], rest }
          else do
            let given ← given.settle
            let given ← given.addOperand form.operands argument
            readArguments form limit given rest

def Form.read (form : Form) (arguments : List String) : Except Stop Given :=
  readArguments form arguments.length .nothing arguments

/-- What is given together with the values that variables of the environment have for options that
are not given. -/
def Form.complete (form : Form) (environment : List (String × String)) (given : Given) :
    Except Stop Given :=
  form.options.foldlM (fun given option =>
    match option.standIn.bind fun name => environment.lookup name with
    | none => pure given
    | some value => if given.has option.name then pure given else given.add option value) given

end TagPolicy.CommandLine
