import TagPolicy.Failure
import TagPolicy.Store.Access

/-!
The slot that keeps a compiled table from one process to the next. Looking it up never fails: what
cannot be read or used is a miss, and text that was read and rejected is cleared away.
-/

namespace TagPolicy

structure CacheSlot where
  slot : String
  schemaVersion : String
deriving DecidableEq, Repr

inductive Lookup
  | hit (table : Table)
  /-- Nothing usable, and why the slot's text was rejected if there was any. -/
  | miss (rejected : Option Cache.Corruption)
deriving DecidableEq

namespace CacheSlot

/-- The table that a text holds, if it is for the slot's schema version. -/
def accept (cache : CacheSlot) (text : String) : Except Cache.Corruption Table :=
  match Cache.decode text with
  | .error corruption => .error corruption
  | .ok table =>
      if table.schemaVersion = cache.schemaVersion then .ok table
      else .error (.otherSchema table.schemaVersion cache.schemaVersion)

def clear (cache : CacheSlot) : Access (Except StorageFault Unit) := .write cache.slot ""

def load (cache : CacheSlot) : Access Lookup := do
  match ← Access.read cache.slot with
  | .error _ => pure (.miss none)
  | .ok none => pure (.miss none)
  | .ok (some text) =>
      if Text.isBlankText text then pure (.miss none)
      else
        match cache.accept text with
        | .ok table => pure (.hit table)
        | .error corruption => do
            let _ ← cache.clear
            pure (.miss (some corruption))

def store (cache : CacheSlot) (table : Table) : Access (Except Failure Unit) :=
  match Cache.encode table with
  | .error fault => pure (.error (.encode fault))
  | .ok text => do
      match ← Access.write cache.slot text with
      | .error fault => pure (.error (.storage fault))
      | .ok () => pure (.ok ())

end CacheSlot

end TagPolicy
