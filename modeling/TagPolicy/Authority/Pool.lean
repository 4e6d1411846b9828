import TagPolicy.Authority.Basic

/-!
The authorities that a process has started. An engine belongs to one of them for good, so every
engine of an authority sees a table as soon as it is in effect there, and no engine sees another
authority's.
-/

namespace TagPolicy

/-- The authorities of a process, in the order they were started. -/
structure Pool where
  authorities : Array Authority

structure Engine where
  authority : Nat
deriving DecidableEq, Repr

namespace Pool

def empty : Pool := ⟨#[]⟩

instance : Inhabited Pool := ⟨empty⟩

def add (pool : Pool) (authority : Authority) : Engine × Pool :=
  (⟨pool.authorities.size⟩, ⟨pool.authorities.push authority⟩)

def authorityOf? (pool : Pool) (engine : Engine) : Option Authority :=
  pool.authorities[engine.authority]?

def update (pool : Pool) (engine : Engine) (authority : Authority) : Pool :=
  ⟨pool.authorities.setIfInBounds engine.authority authority⟩

end Pool

end TagPolicy
