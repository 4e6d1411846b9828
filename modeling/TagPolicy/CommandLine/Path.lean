import TagPolicy.CommandLine.Errand

/-!
Paths and the making of folders. A path is a list of names between strokes. An empty name and a dot
stand for the folder they are read in, so those at the end of a path say nothing; a path that begins
with a stroke is read from the top.
-/

namespace TagPolicy.CommandLine

def namesOf (path : String) : List String := path.splitOn "/"

def pathOfNames (names : List String) : String := "/".intercalate names

def isHere (name : String) : Bool := name = "" || name = "."

def isFromTop (path : String) : Bool := path.toList.head? = some '/'

/-- The count of octets that no path reaches. -/
def pathLimit : Nat := 4096

def nameLimit : Nat := 255

/-- Why nothing can be at a path, whatever is on the disk. -/
def pathFault? (path : String) : Option SystemFault :=
  if '\x00' ∈ path.toList then some .nullInPath
  else if pathLimit ≤ path.utf8ByteSize then some .nameTooLong
  else if path = "" then some .missing
  else none

/-- A path and the paths of the folders above it, the longest first, without the top and without
the folder that relative paths are read from. The names after the first are given the last first. -/
def ancestorsOf (first : String) : List String → List String
  | [] => if first = "" then [] else [first]
  | name :: earlier =>
      if isHere name then ancestorsOf first earlier
      else pathOfNames (first :: (name :: earlier).reverse) :: ancestorsOf first earlier

def ancestors (path : String) : List String :=
  match namesOf path with
  | [] => []
  | first :: names => ancestorsOf first names.reverse

def pathIn (folder name : String) : String :=
  if folder = "" ∨ folder.toList.getLast? = some '/' then folder ++ name
  else folder ++ "/" ++ name

/-- A path from the top, without the names at its end that say nothing, if it is read from a working
folder. -/
def fullPath (working path : String) : String :=
  (ancestors (if isFromTop path then path else pathIn working path)).headD "/"

namespace Errand

def makeAll : List String → Errand (Except SystemFault Unit)
  | [] => .done (.ok ())
  | path :: paths =>
      .makeFolder path fun outcome => do
        match outcome with
        | .ok () => makeAll paths
        | .error fault => if ← isFolder path then makeAll paths else pure (.error fault)

/-- Makes the first of some paths that can be made or is there, and then those before it, which were
missing and are given last first. -/
def makeFrom (missing : List String) : List String → Errand (Except SystemFault Unit)
  | [] => makeAll missing
  | path :: paths =>
      .makeFolder path fun outcome => do
        match outcome with
        | .ok () => makeAll missing
        | .error .missing => makeFrom (path :: missing) paths
        | .error fault => if ← isFolder path then makeAll missing else pure (.error fault)

def makeWithParents (path : String) : Errand (Except SystemFault Unit) :=
  makeFrom [] (ancestors path)

end Errand

end TagPolicy.CommandLine
