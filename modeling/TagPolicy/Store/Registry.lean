import TagPolicy.Context.Sides

/-!
Tags and accounts held in memory, with a switch that makes every question fail.
-/

namespace TagPolicy

structure Registry where
  tags : List Tag
  assigned : OrderedMap UInt32 (List TagId)
  /-- Whether the registry answers at all. -/
  available : Bool
deriving DecidableEq

namespace Registry

def empty : Registry := ⟨[], .empty, true⟩

instance : Inhabited Registry := ⟨empty⟩

def assign (registry : Registry) (userId : UInt32) (tags : List TagId) : Registry :=
  { registry with assigned := registry.assigned.insert userId tags }

def allTags (registry : Registry) : Except StorageFault (List Tag) :=
  if registry.available then .ok registry.tags else .error .switchedOff

/-- The tags of an account; an account that was never assigned any has none. -/
def explicitTags (registry : Registry) : AccountLookup := fun identity =>
  if registry.available then .ok ((registry.assigned.get? identity.userId).getD [])
  else .error .switchedOff

end Registry

end TagPolicy
