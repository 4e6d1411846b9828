import TagPolicy.Proofs.Store.Contents

/-!
Work on a store whose accesses fail in a given pattern. An answer that fails changes nothing, and a
write that fails leaves its slot as it is. Any pattern is allowed.
-/

namespace TagPolicy

abbrev Faults := Nat → Option StorageFault

namespace Faults

def tail (faults : Faults) : Faults := fun access => faults (access + 1)

end Faults

/-- What comes of a piece of work. -/
structure Attempt (α : Type) where
  result : α
  /-- The texts that reached their slots, in their order. -/
  written : List (String × String)
  contents : Contents

namespace Access

variable {α β : Type}

def answered (fault : Option StorageFault) (contents : Contents) (slot : String) :
    Except StorageFault (Option String) :=
  match fault with
  | none => contents.answer slot
  | some fault => .error fault

def attempt (faults : Faults) (contents : Contents) : Access α → Attempt α
  | .done result => ⟨result, [], contents⟩
  | .get slot next => (next (answered (faults 0) contents slot)).attempt faults.tail contents
  | .set slot text next =>
      match faults 0 with
      | none =>
          let rest := (next (.ok ())).attempt faults.tail (contents.put slot text)
          { rest with written := (slot, text) :: rest.written }
      | some fault => (next (.error fault)).attempt faults.tail contents

section Steps

variable {faults : Faults} {contents : Contents}

theorem attempt_pure (result : α) :
    (pure result : Access α).attempt faults contents = ⟨result, [], contents⟩ := rfl

theorem attempt_look (slot : String) (next : Except StorageFault (Option String) → Access β) :
    (read slot >>= next).attempt faults contents =
      (next (answered (faults 0) contents slot)).attempt faults.tail contents := rfl

theorem attempt_read (slot : String) (reply : Except StorageFault (Option String) → Access α)
    (next : α → Access β) :
    (read slot >>= reply >>= next).attempt faults contents =
      (reply (answered (faults 0) contents slot) >>= next).attempt faults.tail contents := rfl

theorem attempt_write (slot text : String) (next : Except StorageFault Unit → Access β)
    (works : faults 0 = none) :
    (write slot text >>= next).attempt faults contents =
      { (next (.ok ())).attempt faults.tail (contents.put slot text) with
        written := (slot, text) ::
          ((next (.ok ())).attempt faults.tail (contents.put slot text)).written } := by
  change attempt faults contents (.set slot text next) = _
  rw [attempt, works]

theorem attempt_write_fails (slot text : String) (next : Except StorageFault Unit → Access β)
    {fault : StorageFault} (fails : faults 0 = some fault) :
    (write slot text >>= next).attempt faults contents =
      (next (.error fault)).attempt faults.tail contents := by
  change attempt faults contents (.set slot text next) = _
  rw [attempt, fails]

/-- What is made of the result of some work makes no access of its own. -/
theorem attempt_map (work : Access α) (make : α → β) :
    (work >>= fun result => pure (make result)).attempt faults contents =
      ⟨make (work.attempt faults contents).result, (work.attempt faults contents).written,
        (work.attempt faults contents).contents⟩ := by
  induction work generalizing faults contents with
  | done result => rfl
  | get slot next induction => exact induction _
  | set slot text next induction =>
      change attempt faults contents (.set slot text fun outcome =>
        next outcome >>= fun result => pure (make result)) = _
      rw [attempt, attempt]
      cases faults 0 with
      | none =>
          dsimp only
          rw [induction]
      | some fault => exact induction _

end Steps

def putAll (contents : Contents) (written : List (String × String)) : Contents :=
  written.foldl (fun contents entry => contents.put entry.1 entry.2) contents

/-- Nothing but what was written has changed. -/
theorem contents_attempt (work : Access α) (faults : Faults) (contents : Contents) :
    (work.attempt faults contents).contents =
      putAll contents (work.attempt faults contents).written := by
  induction work generalizing faults contents with
  | done result => rfl
  | get slot next induction => exact induction _ _ _
  | set slot text next induction =>
      rw [attempt]
      cases faults 0 with
      | none => exact induction _ _ _
      | some fault => exact induction _ _ _

theorem runs_attempt (work : Access α) (faults : Faults) (contents : Contents) :
    Runs work contents (.done (work.attempt faults contents).result)
      (work.attempt faults contents).contents := by
  induction work generalizing faults contents with
  | done result => exact .stop
  | get slot next induction =>
      have rest := induction (answered (faults 0) contents slot) faults.tail contents
      cases fault : faults 0 with
      | none =>
          rw [fault] at rest
          rw [attempt, fault]
          exact .get rest
      | some fails =>
          rw [fault] at rest
          rw [attempt, fault]
          exact .getFails fails rest
  | set slot text next induction =>
      cases fault : faults 0 with
      | none =>
          rw [attempt, fault]
          exact .set (induction (.ok ()) faults.tail (contents.put slot text))
      | some fails =>
          rw [attempt, fault]
          exact .setFails fails (induction (.error fails) faults.tail contents)

end Access

end TagPolicy
