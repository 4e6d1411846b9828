import TagPolicy.CommandLine.Path
import TagPolicy.Ordered.Map

/-!
A disk held in memory, on which errands are run. It has a working folder, from which paths are read
that do not begin with a stroke; two dots in a path stand for the folder above.
-/

namespace TagPolicy.CommandLine

inductive Entry
  | file (content : List UInt8)
  | folder

def Entry.kind : Entry → EntryKind
  | file _ => .file
  | folder => .folder

/-- A place: the names of the folders from the top down to it. -/
abbrev Place := List String

/-- A disk: what is at the paths of its places, and its working folder. No name has a stroke in it,
so different places have different paths. -/
structure Disk where
  entries : OrderedMap String Entry
  working : Place

namespace Disk

def entry? (disk : Disk) (place : Place) : Option Entry := disk.entries.get? (pathOfNames place)

def put (disk : Disk) (place : Place) (entry : Entry) : Disk :=
  { disk with entries := disk.entries.insert (pathOfNames place) entry }

def topFolders : List String :=
  ["bin", "boot", "dev", "etc", "home", "lib", "media", "mnt", "opt", "proc", "root", "run", "sbin",
    "srv", "sys", "tmp", "usr", "var"]

/-- A disk with the folders of every disk, the file that is always empty, and an empty working
folder among the folders for short use. -/
def empty : Disk :=
  let bare : Disk := ⟨.empty, ["tmp", "workfolder"]⟩
  let folders := [] :: bare.working :: topFolders.map ([·])
  (folders.foldl (fun disk place => disk.put place .folder) bare).put ["dev", "null"]
    (.file [])

instance : Inhabited Disk := ⟨empty⟩

def follow (disk : Disk) (place : Place) : List String → Except SystemFault Place
  | [] => .ok place
  | name :: names =>
      match disk.entry? place with
      | none => .error .missing
      | some (.file _) => .error .notFolder
      | some .folder =>
          if isHere name then disk.follow place names
          else if name = ".." then disk.follow place.dropLast names
          else if nameLimit < name.utf8ByteSize then .error .nameTooLong
          else if (disk.entry? (place ++ [name])).isSome then disk.follow (place ++ [name]) names
          else .error .missing

def start (disk : Disk) (path : String) : Place := if isFromTop path then [] else disk.working

def find (disk : Disk) (path : String) : Except SystemFault Place :=
  match pathFault? path with
  | some fault => .error fault
  | none => disk.follow (disk.start path) (namesOf path)

def look (disk : Disk) (path : String) : Except SystemFault EntryKind := do
  match disk.entry? (← disk.find path) with
  | none => .error .missing
  | some entry => .ok entry.kind

def readFile (disk : Disk) (path : String) : Except SystemFault (List UInt8) := do
  match disk.entry? (← disk.find path) with
  | none => .error .missing
  | some .folder => .error .isFolder
  | some (.file content) => .ok content

def makeFolder (disk : Disk) (path : String) : Except SystemFault Disk :=
  match pathFault? path, (namesOf path).reverse.dropWhile (· = "") with
  | some fault, _ => .error fault
  | none, [] => .error .taken
  | none, name :: above => do
      let place ← disk.follow (disk.start path) (above.reverse ++ ["."])
      if name = "." ∨ name = ".." then .error .taken
      else if nameLimit < name.utf8ByteSize then .error .nameTooLong
      else if (disk.entry? (place ++ [name])).isSome then .error .taken
      else .ok (disk.put (place ++ [name]) .folder)

/-- The disk with a file put at a path, in a folder that is there and in place of a file that is
there. -/
def writeFile (disk : Disk) (path : String) (content : List UInt8) : Except SystemFault Disk :=
  match pathFault? path, (namesOf path).reverse with
  | some fault, _ => .error fault
  | none, [] => .error .missing
  | none, name :: above => do
      let place ← disk.follow (disk.start path) (above.reverse ++ ["."])
      if isHere name ∨ name = ".." then .error .isFolder
      else if nameLimit < name.utf8ByteSize then .error .nameTooLong
      else
        match disk.entry? (place ++ [name]) with
        | some .folder => .error .isFolder
        | _ => .ok (disk.put (place ++ [name]) (.file content))

/-- The outcome of a change, and the disk after it; a change that fails changes nothing. -/
def outcomeOf (disk : Disk) : Except SystemFault Disk → Except SystemFault Unit × Disk
  | .ok disk => (.ok (), disk)
  | .error fault => (.error fault, disk)

end Disk

def Errand.run {α : Type} (disk : Disk) : Errand α → α × Disk
  | .done result => (result, disk)
  | .workingFolder next => (next ("/" ++ pathOfNames disk.working)).run disk
  | .look path next => (next (disk.look path)).run disk
  | .readFile path next => (next (disk.readFile path)).run disk
  | .writeFile path content next =>
      let (outcome, disk) := disk.outcomeOf (disk.writeFile path content)
      (next outcome).run disk
  | .makeFolder path next =>
      let (outcome, disk) := disk.outcomeOf (disk.makeFolder path)
      (next outcome).run disk

def Disk.place (disk : Disk) (path : String) (content : List UInt8) : Except SystemFault Disk :=
  let folder := pathOfNames (namesOf path).dropLast
  let (outcome, disk) := (Errand.makeWithParents folder).run disk
  outcome.bind fun _ => disk.writeFile path content

end TagPolicy.CommandLine
