import TagPolicy.Policy.Table

/-!
The place of the table that is in effect. Whoever has read the table from its place keeps that
table; a replacement changes what later readers get, and hands back what was there.
-/

namespace TagPolicy

structure ActiveTable where
  current : Table
deriving DecidableEq, Repr

namespace ActiveTable

/-- Nothing has been put into effect, so every request is denied. -/
def empty : ActiveTable := ⟨.empty⟩

instance : Inhabited ActiveTable := ⟨empty⟩

/-- Puts a table into effect: the table that was there, and the place afterwards. -/
def replace (active : ActiveTable) (table : Table) : Table × ActiveTable :=
  (active.current, { active with current := table })

@[simp] theorem current_replace (active : ActiveTable) (table : Table) :
    (active.replace table).2.current = table := rfl

end ActiveTable

end TagPolicy
