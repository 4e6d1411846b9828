import TagPolicy.Proofs.Authority.Installation
import TagPolicy.Proofs.Store.Keeping
import TagPolicy.Proofs.Text.Trimming

/-!
The schema gate after a preparation. The expected version is written as it stands in the settings,
and blanks are taken off what is read before it is compared. So a store that was prepared passes the
gate exactly if the expected version has no blanks around it, although settings with such blanks are
accepted.
-/

namespace TagPolicy

open Access (Keeps keeps_done keeps_look keeps_put runs_run)

namespace Access

variable {α β : Type}

theorem run_bind (work : Access α) (next : α → Access β) (slots : Slots) :
    (work >>= next).run slots = (next (work.run slots).1).run (work.run slots).2 := by
  induction work generalizing slots with
  | done result => rfl
  | get slot further induction => exact induction _ slots
  | set slot text further induction => exact induction _ _

theorem run_read (slot : String) (next : Except StorageFault (Option String) → Access β)
    (slots : Slots) : (read slot >>= next).run slots = (next (slots.get slot)).run slots := rfl

theorem run_write (slot text : String) (next : Except StorageFault Unit → Access β)
    (slots : Slots) :
    (write slot text >>= next).run slots =
      (next (slots.set slot text).1).run (slots.set slot text).2 := rfl

theorem Keeps.result_run {work : Access α} {invariant : Contents → Prop} {expected : α → Prop}
    {slots : Slots} (keeps : work.Keeps invariant expected slots.contents) :
    expected (work.run slots).1 :=
  (keeps.after_runs (runs_run work slots)).2

theorem keeps_always (work : Access α) (contents : Contents) :
    work.Keeps (fun _ => True) (fun _ => True) contents := by
  induction work generalizing contents with
  | done result => exact keeps_done trivial trivial
  | get slot next induction => exact keeps_look trivial fun answer => induction answer contents
  | set slot text next induction =>
      exact keeps_put trivial trivial fun outcome contents _ => induction outcome contents

end Access

open Access (keeps_always run_bind run_read run_write)

/-- A slot that can be read can be read after it was written. -/
theorem Slots.get_set {slots after : Slots} {slot text : String} {found : Option String}
    (read : slots.get slot = .ok found) (written : slots.set slot text = (.ok (), after)) :
    after.get slot = .ok (some text) := by
  rw [set] at written
  split at written
  · cases written
  · cases written
    rw [get] at read
    split at read
    · cases read
    · rename_i readable
      split at read
      · cases read
      · rename_i available
        change (if slot ∈ slots.unreadable then _ else if slots.available = false then _
          else Contents.answer (Contents.put slots.contents slot text) slot) = _
        rw [if_neg readable, if_neg available, Contents.answer_put_self]

/-- The store has another version than expected, or none. -/
def Failure.IsMismatch : Failure → Prop
  | schemaMismatch _ _ => True
  | _ => False

def Mismatched {α : Type} : Except Failure α → Prop
  | .error failure => failure.IsMismatch
  | .ok _ => False

/-- Work that never ends in a mismatch of versions, whatever it is answered. -/
def Unrefused {α : Type} (work : Access (Except Failure α)) : Prop :=
  ∀ contents, work.Keeps (fun _ => True) (fun outcome => ¬ Mismatched outcome) contents

section Unrefused

theorem not_mismatched_compile (schemaVersion text : String) :
    ¬ Mismatched (Table.compile schemaVersion text) := by
  rw [Table.compile]
  split
  · exact not_false
  · split
    · exact not_false
    · exact not_false

theorem CacheSlot.unrefused_store (cache : CacheSlot) (table : Table) :
    Unrefused (cache.store table) := by
  intro contents
  rw [store]
  cases Cache.encode table with
  | error fault => exact keeps_done trivial not_false
  | ok text =>
      apply keeps_put trivial trivial
      intro outcome contents _
      cases outcome with
      | error fault => exact keeps_done trivial not_false
      | ok written => exact keeps_done trivial not_false

namespace EngineSettings

theorem unrefused_compile_stored (settings : EngineSettings) : Unrefused settings.compileStored := by
  intro contents
  rw [compileStored]
  apply keeps_look trivial
  intro answer
  cases answer with
  | error fault => exact keeps_done trivial not_false
  | ok text =>
      have compiled := not_mismatched_compile settings.schemaVersion (text.getD "")
      dsimp only
      cases outcome : Table.compile settings.schemaVersion (text.getD "") with
      | error failure =>
          rw [outcome] at compiled
          exact keeps_done trivial compiled
      | ok table =>
          apply (settings.cache.unrefused_store table contents).bind
          intro stored contents _ _
          exact keeps_done trivial not_false

theorem unrefused_obtain_table (settings : EngineSettings) : Unrefused settings.obtainTable := by
  intro contents
  rw [obtainTable]
  apply (keeps_always settings.cache.load contents).bind
  intro lookup contents _ _
  cases lookup with
  | hit table => exact keeps_done trivial not_false
  | miss rejected =>
      apply (unrefused_compile_stored settings contents).bind
      intro outcome contents _ passed
      cases outcome with
      | error failure => exact keeps_done trivial passed
      | ok table => exact keeps_done trivial not_false

theorem keeps_commit_unrefused (settings : EngineSettings) (text : String) (table : Table)
    (contents : Contents) :
    (settings.commit text table).Keeps (fun _ => True) (fun commit => ¬ Mismatched commit.outcome)
      contents := by
  rw [commit]
  apply keeps_put trivial trivial
  intro cleared contents _
  cases cleared with
  | error fault => exact keeps_done trivial not_false
  | ok emptied =>
      apply keeps_put trivial trivial
      intro replaced contents _
      cases replaced with
      | error fault => exact keeps_done trivial not_false
      | ok written =>
          apply (settings.cache.unrefused_store table contents).bind
          intro outcome contents _ passed
          exact keeps_done trivial passed

end EngineSettings

end Unrefused

namespace EngineSettings

variable {settings : EngineSettings} {slots : Slots}

theorem run_check_schema (settings : EngineSettings) (slots : Slots) :
    settings.checkSchema.run slots =
      (settings.admission (slots.get settings.versionSlot), slots) := by
  rw [checkSchema, run_read]
  cases slots.get settings.versionSlot with
  | error fault => rfl
  | ok found => rfl

theorem run_prepare {version : String}
    (present : slots.get settings.versionSlot = .ok (some version)) :
    settings.prepare.run slots = (settings.admits (some version), slots) := by
  rw [prepare, run_read, present]
  dsimp only
  rw [run_check_schema, present]
  rfl

/-- The version of a prepared store: one that passed the gate, or the expected one as it stands in
the settings. -/
theorem version_of_prepared (prepared : (settings.prepare.run slots).1 = .ok ()) :
    ∃ version, (settings.prepare.run slots).2.get settings.versionSlot = .ok (some version) ∧
      (settings.admits (some version) = .ok () ∨ version = settings.schemaVersion) := by
  cases answer : slots.get settings.versionSlot with
  | error fault =>
      rw [prepare, run_read, answer] at prepared
      cases prepared
  | ok found =>
      cases found with
      | some version =>
          rw [run_prepare answer] at prepared ⊢
          exact ⟨version, answer, Or.inl prepared⟩
      | none =>
          rw [prepare, run_read, answer] at prepared ⊢
          dsimp only at prepared ⊢
          rw [run_write] at prepared ⊢
          refine ⟨settings.schemaVersion, ?_, Or.inr rfl⟩
          cases written : slots.set settings.versionSlot settings.schemaVersion with
          | mk outcome after =>
              rw [written] at prepared
              cases outcome with
              | error fault => cases prepared
              | ok done => exact Slots.get_set answer written

theorem admits_eq_ok {version : String} :
    settings.admits (some version) = .ok () ↔ Text.trim version = settings.schemaVersion := by
  rw [admits]
  split <;> simp [*]

/-- A version that was written by a preparation passes the gate exactly if nothing is trimmed off
the expected one. -/
theorem admits_prepared_iff {version : String}
    (stamped : settings.admits (some version) = .ok () ∨ version = settings.schemaVersion) :
    settings.admits (some version) = .ok () ↔
      Text.trim settings.schemaVersion = settings.schemaVersion := by
  rcases stamped with passed | same
  · have trimmed := admits_eq_ok.mp passed
    simp only [passed, ← trimmed, Text.trim_trim]
  · rw [admits_eq_ok, same]

theorem mismatched_of_not_admits {version : String}
    (refused : settings.admits (some version) ≠ .ok ()) :
    Mismatched (settings.admits (some version)) := by
  have different := fun trimmed => refused (admits_eq_ok.mpr trimmed)
  rw [admits, if_neg different]
  trivial

/-- Work behind the gate is refused by the gate alone. -/
theorem mismatched_gated_iff {α : Type} {version : String}
    (present : slots.get settings.versionSlot = .ok (some version))
    {next : Except Failure Unit → Access (Except Failure α)}
    (refuses : ∀ failure, next (.error failure) = pure (.error failure))
    (passes : Unrefused (next (.ok ()))) :
    ¬ Mismatched ((settings.checkSchema >>= next).run slots).1 ↔
      settings.admits (some version) = .ok () := by
  rw [run_bind, run_check_schema, present]
  change ¬ Mismatched ((next (settings.admits (some version))).run slots).1 ↔ _
  cases outcome : settings.admits (some version) with
  | ok passed =>
      have result := (passes slots.contents).result_run
      exact ⟨fun _ => rfl, fun _ => result⟩
  | error failure =>
      have mismatch : Mismatched (settings.admits (some version)) := by
        apply mismatched_of_not_admits
        rw [outcome]
        simp
      rw [outcome] at mismatch
      rw [refuses]
      constructor
      · intro passed
        exact absurd mismatch passed
      · intro impossible
        cases impossible

theorem mismatched_install_into_iff {version text : String} {table : Table}
    (present : slots.get settings.versionSlot = .ok (some version))
    (compiled : Table.compile settings.schemaVersion text = .ok table) :
    ¬ Mismatched ((settings.installInto text).run slots).1 ↔
      settings.admits (some version) = .ok () := by
  apply mismatched_gated_iff present
  · intro failure
    rfl
  · intro contents
    rw [compiled]
    apply (settings.keeps_commit_unrefused text table contents).bind
    intro commit contents _ passed
    cases outcome : commit.outcome with
    | ok done => exact keeps_done trivial not_false
    | error failure =>
        rw [outcome] at passed
        exact keeps_done trivial passed

theorem mismatched_start_iff {version : String} (tags : Except StorageFault (List Tag))
    (present : slots.get settings.versionSlot = .ok (some version)) :
    ¬ Mismatched ((Authority.start settings tags).run slots).1 ↔
      settings.admits (some version) = .ok () := by
  apply mismatched_gated_iff present
  · intro failure
    rfl
  · intro contents
    apply (settings.unrefused_obtain_table contents).bind
    intro outcome contents _ passed
    cases outcome with
    | error failure => exact keeps_done trivial passed
    | ok obtained =>
        cases tags with
        | error fault => exact keeps_done trivial not_false
        | ok tags =>
            dsimp only
            cases TagTree.build tags with
            | error fault => exact keeps_done trivial not_false
            | ok tree => exact keeps_done trivial not_false

end EngineSettings

/-- After a preparation that succeeded, a second one succeeds and changes nothing, no installation
of rules that compile is refused because of the version, and no authority is refused a start because
of it, each of these exactly if the expected version has no blanks around it. -/
theorem gate_open_iff_trimmed (settings : EngineSettings) (slots : Slots)
    (prepared : (settings.prepare.run slots).1 = .ok ()) :
    let after := (settings.prepare.run slots).2
    let trimmed := Text.trim settings.schemaVersion = settings.schemaVersion
    (settings.prepare.run after = (.ok (), after) ↔ trimmed) ∧
      (∀ text table, Table.compile settings.schemaVersion text = .ok table →
        (¬ Mismatched ((settings.installInto text).run after).1 ↔ trimmed)) ∧
      ∀ tags, ¬ Mismatched ((Authority.start settings tags).run after).1 ↔ trimmed := by
  intro after trimmed
  obtain ⟨version, present, stamped⟩ := EngineSettings.version_of_prepared prepared
  have opens := EngineSettings.admits_prepared_iff stamped
  refine ⟨?_, ?_, ?_⟩
  · rw [EngineSettings.run_prepare present, Prod.mk.injEq]
    exact (and_iff_left rfl).trans opens
  · intro text table compiled
    exact (EngineSettings.mismatched_install_into_iff present compiled).trans opens
  · intro tags
    exact (EngineSettings.mismatched_start_iff tags present).trans opens

def paddedSettings : EngineSettings := { EngineSettings.standard with schemaVersion := " 0.20.11 " }

theorem gate_open_after_standard_preparation :
    (EngineSettings.standard.prepare.run .empty).1 = .ok () ∧
      let after := (EngineSettings.standard.prepare.run .empty).2
      EngineSettings.standard.prepare.run after = (.ok (), after) ∧
        ¬ Mismatched ((EngineSettings.standard.installInto "allow true").run after).1 ∧
          ¬ Mismatched ((Authority.start .standard (.ok [])).run after).1 := by
  have prepared : (EngineSettings.standard.prepare.run .empty).1 = .ok () := rfl
  have trimmed : Text.trim EngineSettings.standard.schemaVersion =
    EngineSettings.standard.schemaVersion := by decide
  obtain ⟨again, install, start⟩ := gate_open_iff_trimmed .standard .empty prepared
  have compiles :
      (Table.compile EngineSettings.standard.schemaVersion "allow true").isOk = true := by
    decide +kernel
  refine ⟨prepared, again.mpr trimmed, ?_, (start (.ok [])).mpr trimmed⟩
  cases compiled : Table.compile EngineSettings.standard.schemaVersion "allow true" with
  | ok table => exact (install "allow true" table compiled).mpr trimmed
  | error failure =>
      rw [compiled] at compiles
      cases compiles

/-- Accepted settings, with which a store that was prepared cannot be used. -/
theorem gate_shut_on_padded_version :
    paddedSettings.fault? = none ∧ (paddedSettings.prepare.run .empty).1 = .ok () ∧
      let after := (paddedSettings.prepare.run .empty).2
      (paddedSettings.prepare.run after).1 =
          .error (.schemaMismatch " 0.20.11 " (some " 0.20.11 ")) ∧
        Mismatched ((paddedSettings.installInto "").run after).1 ∧
          Mismatched ((Authority.start paddedSettings (.ok [])).run after).1 := by
  refine ⟨by decide, rfl, rfl, trivial, trivial⟩

end TagPolicy
