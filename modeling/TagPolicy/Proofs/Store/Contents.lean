import TagPolicy.Store.Slots

/-!
What a store holds, apart from its failures: the answers of its slots, a text put into a slot, and
work on slots performed without failures.
-/

namespace TagPolicy

abbrev Contents := OrderedMap String SlotContent

namespace Contents

def answer (contents : Contents) (slot : String) : Except StorageFault (Option String) :=
  match contents.get? slot with
  | none => .ok none
  | some content => (Slots.textOf slot content).map some

def put (contents : Contents) (slot text : String) : Contents := contents.insert slot (.text text)

@[simp] theorem answer_empty (slot : String) : answer .empty slot = .ok none := rfl

theorem answer_put_self (contents : Contents) (slot text : String) :
    (contents.put slot text).answer slot = .ok (some text) := by
  rw [answer, put, OrderedMap.get?_insert, if_pos rfl]
  rfl

theorem answer_put_other {contents : Contents} {slot other text : String}
    (different : other ≠ slot) : (contents.put slot text).answer other = contents.answer other := by
  rw [answer, put, OrderedMap.get?_insert, if_neg different]
  rfl

end Contents

namespace Access

def perform {α : Type} (contents : Contents) : Access α → α × Contents
  | .done result => (result, contents)
  | .get slot next => (next (contents.answer slot)).perform contents
  | .set slot text next => (next (.ok ())).perform (contents.put slot text)

/-- Some of the accesses of a piece of work, each of which may fail, up to where it was cut off: what
is left of the work and the contents at that point. An answer that fails changes nothing; a text
whose writing fails may still have reached its slot. -/
inductive Runs {α : Type} : Access α → Contents → Access α → Contents → Prop
  | stop {work : Access α} {contents : Contents} : Runs work contents work contents
  | get {slot : String} {next : Except StorageFault (Option String) → Access α} {rest : Access α}
      {contents after : Contents} :
      Runs (next (contents.answer slot)) contents rest after →
        Runs (.get slot next) contents rest after
  | getFails {slot : String} {next : Except StorageFault (Option String) → Access α}
      {rest : Access α} {contents after : Contents} (fault : StorageFault) :
      Runs (next (.error fault)) contents rest after → Runs (.get slot next) contents rest after
  | set {slot text : String} {next : Except StorageFault Unit → Access α} {rest : Access α}
      {contents after : Contents} :
      Runs (next (.ok ())) (contents.put slot text) rest after →
        Runs (.set slot text next) contents rest after
  | setFails {slot text : String} {next : Except StorageFault Unit → Access α} {rest : Access α}
      {contents after : Contents} (fault : StorageFault) :
      Runs (next (.error fault)) contents rest after → Runs (.set slot text next) contents rest after
  | setFailsLate {slot text : String} {next : Except StorageFault Unit → Access α}
      {rest : Access α} {contents after : Contents} (fault : StorageFault) :
      Runs (next (.error fault)) (contents.put slot text) rest after →
        Runs (.set slot text next) contents rest after

variable {α β : Type}

theorem runs_perform (work : Access α) (contents : Contents) :
    Runs work contents (.done (work.perform contents).1) (work.perform contents).2 := by
  induction work generalizing contents with
  | done result => exact .stop
  | get slot next induction => exact .get (induction _ contents)
  | set slot text next induction => exact .set (induction _ (contents.put slot text))

/-- Work after its next access, and the contents after it; nothing happens to finished work. -/
def advance (contents : Contents) : Access α → Access α × Contents
  | .done result => (.done result, contents)
  | .get slot next => (next (contents.answer slot), contents)
  | .set slot text next => (next (.ok ()), contents.put slot text)

theorem runs_advance {work rest : Access α} {contents after : Contents}
    (runs : Runs (work.advance contents).1 (work.advance contents).2 rest after) :
    Runs work contents rest after := by
  cases work with
  | done result => exact runs
  | get slot next => exact .get runs
  | set slot text next => exact .set runs

/-- What is left of work that is cut off after a number of accesses, and the contents then. -/
def cutOff (contents : Contents) : Nat → Access α → Access α × Contents
  | 0, work => (work, contents)
  | count + 1, work => cutOff (work.advance contents).2 count (work.advance contents).1

theorem runs_cut_off (count : Nat) (work : Access α) (contents : Contents) :
    Runs work contents (work.cutOff contents count).1 (work.cutOff contents count).2 := by
  induction count generalizing work contents with
  | zero => exact .stop
  | succ count induction => exact runs_advance (induction _ _)

theorem get_eq_answer (slots : Slots) (slot : String) :
    slots.get slot = Contents.answer slots.contents slot ∨ ∃ fault, slots.get slot = .error fault := by
  rw [Slots.get]
  split
  · exact Or.inr ⟨_, rfl⟩
  · split
    · exact Or.inr ⟨_, rfl⟩
    · exact Or.inl rfl

/-- Whatever the switches of a store in memory are, work on it is one of the runs. -/
theorem runs_run (work : Access α) (slots : Slots) :
    Runs work slots.contents (.done (work.run slots).1) (work.run slots).2.contents := by
  induction work generalizing slots with
  | done result => exact .stop
  | get slot next induction =>
      have rest := induction (slots.get slot) slots
      rcases get_eq_answer slots slot with same | ⟨fault, fails⟩
      · rw [same] at rest
        rw [run, same]
        exact .get rest
      · rw [fails] at rest
        rw [run, fails]
        exact .getFails fault rest
  | set slot text next induction =>
      have rest := induction (slots.set slot text).1 (slots.set slot text).2
      rw [run]
      dsimp only
      rw [Slots.set] at rest ⊢
      cases fault : slots.writeFault slot text with
      | none =>
          rw [fault] at rest
          exact .set rest
      | some fails =>
          rw [fault] at rest
          exact .setFails fails rest

end Access

end TagPolicy
