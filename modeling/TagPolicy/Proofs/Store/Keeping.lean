import TagPolicy.Proofs.Store.Contents

/-!
Work that keeps an invariant of a store whatever fails and wherever it is cut off. `Keeps` follows the
accesses of the work, so that the invariant is shown once for each of them.
-/

namespace TagPolicy.Access

/-- The invariant holds wherever the work is cut off, and what the work ends with is as expected. -/
def Keeps {α : Type} (invariant : Contents → Prop) (expected : α → Prop) :
    Access α → Contents → Prop
  | .done result, contents => invariant contents ∧ expected result
  | .get slot next, contents =>
      invariant contents ∧ (next (contents.answer slot)).Keeps invariant expected contents ∧
        ∀ fault, (next (.error fault)).Keeps invariant expected contents
  | .set slot text next, contents =>
      invariant contents ∧ (next (.ok ())).Keeps invariant expected (contents.put slot text) ∧
        ∀ fault, (next (.error fault)).Keeps invariant expected contents ∧
          (next (.error fault)).Keeps invariant expected (contents.put slot text)

variable {α β : Type} {invariant : Contents → Prop} {expected : α → Prop} {goal : β → Prop}
  {contents after : Contents}

theorem Keeps.holds {work : Access α} (keeps : work.Keeps invariant expected contents) :
    invariant contents := by
  cases work with
  | done result => exact keeps.1
  | get slot next => exact keeps.1
  | set slot text next => exact keeps.1

/-- Every run stays within what was kept. -/
theorem Keeps.after_runs {work rest : Access α} (keeps : work.Keeps invariant expected contents)
    (runs : Runs work contents rest after) : rest.Keeps invariant expected after := by
  induction runs with
  | stop => exact keeps
  | get _ induction => exact induction keeps.2.1
  | getFails fault _ induction => exact induction (keeps.2.2 fault)
  | set _ induction => exact induction keeps.2.1
  | setFails fault _ induction => exact induction (keeps.2.2 fault).1
  | setFailsLate fault _ induction => exact induction (keeps.2.2 fault).2

theorem keeps_done {result : α} (holds : invariant contents) (good : expected result) :
    (pure result : Access α).Keeps invariant expected contents := ⟨holds, good⟩

/-- What follows has to keep the invariant from any contents that have it. -/
theorem Keeps.bind {work : Access α} {next : α → Access β}
    (keeps : work.Keeps invariant expected contents)
    (rest : ∀ result contents, invariant contents → expected result →
      (next result).Keeps invariant goal contents) :
    (work >>= next).Keeps invariant goal contents := by
  induction work generalizing contents with
  | done result => exact rest result contents keeps.1 keeps.2
  | get slot further induction =>
      obtain ⟨holds, answered, failed⟩ := keeps
      exact ⟨holds, induction _ answered, fun fault => induction _ (failed fault)⟩
  | set slot text further induction =>
      obtain ⟨holds, written, failed⟩ := keeps
      refine ⟨holds, induction _ written, ?_⟩
      intro fault
      exact ⟨induction _ (failed fault).1, induction _ (failed fault).2⟩

theorem keeps_read {slot : String} {next : Except StorageFault (Option String) → Access β}
    (holds : invariant contents)
    (answered : (next (contents.answer slot)).Keeps invariant goal contents)
    (failed : ∀ fault, (next (.error fault)).Keeps invariant goal contents) :
    (read slot >>= next).Keeps invariant goal contents := ⟨holds, answered, failed⟩

theorem keeps_write {slot text : String} {next : Except StorageFault Unit → Access β}
    (holds : invariant contents)
    (written : (next (.ok ())).Keeps invariant goal (contents.put slot text))
    (failed : ∀ fault, (next (.error fault)).Keeps invariant goal contents ∧
      (next (.error fault)).Keeps invariant goal (contents.put slot text)) :
    (write slot text >>= next).Keeps invariant goal contents := ⟨holds, written, failed⟩

/-- An answer that does not matter to the invariant. -/
theorem keeps_look {slot : String} {next : Except StorageFault (Option String) → Access β}
    (holds : invariant contents)
    (rest : ∀ answer, (next answer).Keeps invariant goal contents) :
    (read slot >>= next).Keeps invariant goal contents := by
  apply keeps_read holds
  · exact rest (contents.answer slot)
  · intro fault
    exact rest (.error fault)

/-- A text that leaves the invariant as it is, whether it has reached its slot or not. -/
theorem keeps_put {slot text : String} {next : Except StorageFault Unit → Access β}
    (holds : invariant contents) (written : invariant (contents.put slot text))
    (rest : ∀ outcome contents, invariant contents →
      (next outcome).Keeps invariant goal contents) :
    (write slot text >>= next).Keeps invariant goal contents := by
  apply keeps_write holds
  · exact rest (.ok ()) (contents.put slot text) written
  · intro fault
    exact ⟨rest (.error fault) contents holds, rest (.error fault) (contents.put slot text) written⟩

end TagPolicy.Access
