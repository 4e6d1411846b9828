import TagPolicy.Ordered.Map
import TagPolicy.Tag.Basic
import TagPolicy.Value

/-!
The parts of a request: who asks, from where, to do what, and with which entity.
-/

namespace TagPolicy

/-- A user whose credentials have been verified elsewhere. -/
structure Identity where
  userId : UInt32
  username : String
deriving DecidableEq, Repr

structure Navigation where
  page : Option String
  tab : Option String
deriving DecidableEq, Repr

def Navigation.nowhere : Navigation := ⟨none, none⟩

/-- What is to be done; an empty name stands for mere access to a page. -/
structure Action where
  name : String
deriving DecidableEq, Repr

def Action.access : Action := ⟨""⟩

/-- The entity that a request is about; an empty realm stands for no entity. -/
structure Target where
  realm : String
  id : Option UInt64
  tags : List TagId
  attributes : OrderedMap String Value
deriving DecidableEq

namespace Target

def ofRealm (realm : String) : Target := ⟨realm, none, [], .empty⟩

def nothing : Target := ofRealm ""

def withId (target : Target) (id : UInt64) : Target := { target with id := some id }

/-- The target with one more tag; a tag it has already is not repeated. -/
def withTag (target : Target) (tag : TagId) : Target :=
  if tag ∈ target.tags then target else { target with tags := target.tags ++ [tag] }

def withAttribute (target : Target) (name : String) (value : Value) : Target :=
  { target with attributes := target.attributes.insert name value }

end Target

end TagPolicy
