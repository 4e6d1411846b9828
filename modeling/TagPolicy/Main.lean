import TagPolicy.CommandLine.Commands

/-!
The program. It carries out errands on real files and folders. A file is written by putting a
complete file in the place of the old one.
-/

namespace TagPolicy.CommandLine

/-- What an error of the system means. Codes may come with a sign in front of them. -/
def systemFault : IO.Error → SystemFault
  | .alreadyExists _ _ _ => .taken
  | .noFileOrDirectory _ _ _ => .missing
  | .noSuchThing _ _ _ => .missing
  | .inappropriateType _ code report =>
      if code = 20 ∨ code = -20 then .notFolder
      else if code = 21 ∨ code = -21 then .isFolder
      else .other s!"{report} (os error {code})"
  | .invalidArgument _ code report =>
      if code = 36 ∨ code = -36 then .nameTooLong else .other s!"{report} (os error {code})"
  | error => .other error.toString

def attempt {α : Type} (request : IO α) : IO (Except SystemFault α) := do
  match ← request.toBaseIO with
  | .ok answer => pure (.ok answer)
  | .error error => pure (.error (systemFault error))

def attemptAt {α : Type} (path : String) (request : IO α) : IO (Except SystemFault α) :=
  match pathFault? path with
  | some fault => pure (.error fault)
  | none => attempt request

def readOctets (path : String) : IO (Except SystemFault (List UInt8)) := do
  let answer ← attemptAt path (IO.FS.readBinFile path)
  pure (answer.map ByteArray.toList)

def lookAt (path : String) : IO (Except SystemFault EntryKind) := do
  match ← readOctets path with
  | .ok _ => pure (.ok .file)
  | .error .isFolder => pure (.ok .folder)
  | .error fault => pure (.error fault)

def replaceFile (path : String) (content : List UInt8) : IO (Except SystemFault Unit) :=
  attemptAt path do
    IO.FS.writeBinFile (path ++ "~") ⟨content.toArray⟩
    IO.FS.rename (path ++ "~") path

def Errand.carryOut {α : Type} : Errand α → IO α
  | .done result => pure result
  | .workingFolder next => do (next (← IO.currentDir).toString).carryOut
  | .look path next => do (next (← lookAt path)).carryOut
  | .readFile path next => do (next (← readOctets path)).carryOut
  | .writeFile path content next => do (next (← replaceFile path content)).carryOut
  | .makeFolder path next => do (next (← attemptAt path (IO.FS.createDir path))).carryOut

def variableNames : List String := programForm.options.filterMap OptionForm.standIn

def readEnvironment : IO (List (String × String)) :=
  variableNames.filterMapM fun name => do
    pure ((← IO.getEnv name).map fun value => (name, value))

end TagPolicy.CommandLine

def main (arguments : List String) : IO UInt32 := do
  let environment ← TagPolicy.CommandLine.readEnvironment
  let outcome ← (TagPolicy.CommandLine.program environment arguments).carryOut
  IO.print outcome.output
  IO.eprint outcome.report
  pure outcome.status
