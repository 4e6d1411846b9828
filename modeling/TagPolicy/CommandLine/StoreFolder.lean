import TagPolicy.CommandLine.Path
import TagPolicy.Store.Access
import TagPolicy.Store.DataFile

/-!
Stores on a disk. A store is a folder with a folder and two files in it: the folder is for contents
that are kept in files of their own, of which there are none, the form file tells in which form the
store is kept, and the data file holds the slots. A store is opened before its slots are used, and
what is missing of it is made then. It does not matter what stands at the place of the inner folder.
-/

namespace TagPolicy.CommandLine

def innerFolder (store : String) : String := pathIn store "blobs"

def formFile (store : String) : String := pathIn store "conf"

def dataFile (store : String) : String := pathIn store "db"

namespace Errand

/-- The inner folder of a store, or what is in its place; if nothing is, it is made, and the folders
above it with it. -/
def openFolder (store : String) : Errand (Except SystemFault Unit) := do
  if ← isThere (innerFolder store) then pure (.ok ()) else makeWithParents (innerFolder store)

def openFile (path : String) (start : List UInt8) : Errand (Except SystemFault (List UInt8)) :=
  readFile path fun answer =>
    match answer with
    | .error .missing => writeFile path start fun outcome => .done (outcome.map fun _ => start)
    | _ => .done answer

def reach (store : String) : Errand (Except SystemFault Unit) :=
  workingFolder fun working =>
    .done ((pathFault? (fullPath working store)).elim (.ok ()) .error)

/-- Opens the store at a path; a store that is not there is made. A data file without octets is new,
and is marked as one when all else is done. -/
def openStore (store : String) : Errand (Except SystemFault Unit) := ExceptT.run do
  ExceptT.mk (openFolder store)
  let _ ← ExceptT.mk (openFile (formFile store) DataFile.form)
  let octets ← ExceptT.mk (openFile (dataFile store) [])
  ExceptT.mk (reach store)
  if octets.isEmpty then
    ExceptT.mk (writeFile (dataFile store) DataFile.empty.toOctets .done)

def readData (store : String) : Errand (Except StorageFault DataFile) :=
  readFile (dataFile store) fun answer =>
    .done ((answer.map DataFile.ofOctets).mapError fun fault => .system fault.message)

def readSlot (store slot : String) : Errand (Except StorageFault (Option String)) := do
  return (← readData store).map fun file => file.get? slot

def writeSlot (store slot text : String) : Errand (Except StorageFault Unit) := do
  match ← readData store with
  | .error fault => pure (.error fault)
  | .ok file =>
      writeFile (dataFile store) (file.set slot text).toOctets fun outcome =>
        .done (outcome.mapError fun fault => .system fault.message)

/-- Work on the slots of an open store. The data file is read for each access to a slot, so the work
sees what other work on the store has written before. -/
def onStore {α : Type} (store : String) : Access α → Errand α
  | .done result => done result
  | .get slot next => do onStore store (next (← readSlot store slot))
  | .set slot text next => do onStore store (next (← writeSlot store slot text))

end Errand

end TagPolicy.CommandLine
