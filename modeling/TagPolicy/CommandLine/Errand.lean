import TagPolicy.Text.Octets

/-!
What a command asks of the system, as a value: what is at a path, what is in a file, and that files
and folders are made. An errand can be run on real files or on a disk held in memory.
-/

namespace TagPolicy.CommandLine

inductive SystemFault
  | missing
  /-- There is something already where a folder is to be made. -/
  | taken
  | notFolder
  | isFolder
  | nameTooLong
  /-- A path with the null character in it. -/
  | nullInPath
  /-- A file whose octets are no text. -/
  | notText
  | other (report : String)
deriving DecidableEq, Repr

def SystemFault.message : SystemFault → String
  | .missing => "No such file or directory (os error 2)"
  | .taken => "File exists (os error 17)"
  | .notFolder => "Not a directory (os error 20)"
  | .isFolder => "Is a directory (os error 21)"
  | .nameTooLong => "File name too long (os error 36)"
  | .nullInPath => "file name contained an unexpected NUL byte"
  | .notText => "stream did not contain valid UTF-8"
  | .other report => report

inductive EntryKind
  | file
  | folder
deriving DecidableEq, Repr

inductive Errand (α : Type)
  | done (result : α)
  /-- Asks for the path, from the top, of the folder that other paths are read from. -/
  | workingFolder (next : String → Errand α)
  | look (path : String) (next : Except SystemFault EntryKind → Errand α)
  | readFile (path : String) (next : Except SystemFault (List UInt8) → Errand α)
  /-- Puts a file at a path, in a folder that is there and in place of a file that is there. -/
  | writeFile (path : String) (content : List UInt8) (next : Except SystemFault Unit → Errand α)
  | makeFolder (path : String) (next : Except SystemFault Unit → Errand α)

namespace Errand

def andThen {α β : Type} (errand : Errand α) (next : α → Errand β) : Errand β :=
  match errand with
  | done result => next result
  | workingFolder rest => workingFolder fun answer => (rest answer).andThen next
  | look path rest => look path fun answer => (rest answer).andThen next
  | readFile path rest => readFile path fun answer => (rest answer).andThen next
  | writeFile path content rest => writeFile path content fun outcome => (rest outcome).andThen next
  | makeFolder path rest => makeFolder path fun outcome => (rest outcome).andThen next

instance : Monad Errand where
  pure := done
  bind := andThen

def isThere (path : String) : Errand Bool := look path fun answer => .done answer.isOk

def isFolder (path : String) : Errand Bool :=
  look path fun answer =>
    match answer with
    | .ok .folder => .done true
    | _ => .done false

def readText (path : String) : Errand (Except SystemFault String) :=
  readFile path fun answer => .done do
    match Text.decodeText (← answer) with
    | .ok text => .ok text
    | .error _ => .error .notText

end Errand

end TagPolicy.CommandLine
