import TagPolicy.Store.Fault

/-!
Work on named slots of text, as a value. A piece of work is done, or it asks for a slot's text and
goes on with the answer, or it writes a slot and goes on with the outcome. Since every access to the
store is a step of its own, work can be run on any store, stopped between two accesses, or mixed
with the work of another process.
-/

namespace TagPolicy

inductive Access (α : Type)
  | done (result : α)
  /-- Asks for the text of a slot; a slot that was never written has none. -/
  | get (slot : String) (next : Except StorageFault (Option String) → Access α)
  | set (slot text : String) (next : Except StorageFault Unit → Access α)

namespace Access

def andThen {α β : Type} (work : Access α) (next : α → Access β) : Access β :=
  match work with
  | done result => next result
  | get slot rest => get slot fun answer => (rest answer).andThen next
  | set slot text rest => set slot text fun outcome => (rest outcome).andThen next

instance : Monad Access where
  pure := done
  bind := andThen

def read (slot : String) : Access (Except StorageFault (Option String)) := get slot done

def write (slot text : String) : Access (Except StorageFault Unit) := set slot text done

end Access

end TagPolicy
