import TagPolicy.Proofs.Authority.Stages
import TagPolicy.Proofs.Policy.Soundness

/-!
Two processes that start authorities or put rules into one store at the same time. The cache slot is
coherent unless the process that filled it last worked on a rule text that the other process had
replaced in the meantime by one with another table.
-/

namespace TagPolicy

open Access (Follows Interleaved)
open Stage (Move)

namespace Event

def ruleText? (settings : EngineSettings) : Event → Option String
  | read slot (.ok text) => if slot = settings.ruleSlot then some (text.getD "") else none
  | read _ (.error _) => none
  | wrote slot text => if slot = settings.ruleSlot then some text else none

end Event

def Lookup.table? : Lookup → Option Table
  | hit table => some table
  | miss _ => none

/-- The rule text of a process was replaced by the other process after the process had it. -/
def Trace.Overtakes (settings : EngineSettings) (trace : Trace) (side : Side)
    (text newer : String) : Prop :=
  ∃ event : Event, event.ruleText? settings = some text ∧
    trace.Before (side, event) (side.other, .wrote settings.ruleSlot newer)

theorem Trace.Overtakes.append {settings : EngineSettings} {trace : Trace} {side : Side}
    {text newer : String} (overtakes : trace.Overtakes settings side text newer)
    (last : Side × Event) : Trace.Overtakes settings (trace ++ [last]) side text newer := by
  obtain ⟨event, gives, before⟩ := overtakes
  exact ⟨event, gives, Trace.before_append.mpr (Or.inl before)⟩

/-- The cache slot was filled last by a process that had been overtaken, with another table than that
of the newer text. -/
def Trace.Stale (settings : EngineSettings) (trace : Trace) : Prop :=
  ∃ (side : Side) (filling text newer : String),
    trace.lastWrite settings.cacheSlot = some (side, filling) ∧ filling ≠ "" ∧
      trace.Overtakes settings side text newer ∧
        Table.compile settings.schemaVersion text ≠ Table.compile settings.schemaVersion newer

inductive Staged (settings : EngineSettings) (start : Contents) :
    Trace → (Side → Stage) → Contents → Prop
  | start : Staged settings start [] (fun _ => .waiting) start
  | next {trace : Trace} {stages : Side → Stage} {contents : Contents} {side : Side} {event : Event}
      {later : Stage} :
      Staged settings start trace stages contents → event.Truthful contents →
        Move settings (stages side) event later →
          Staged settings start (trace ++ [(side, event)]) (side.replace stages later)
            (event.after contents)

theorem Event.rules_after {settings : EngineSettings} {contents : Contents} {event : Event}
    {text : String} (truthful : event.Truthful contents)
    (gives : event.ruleText? settings = some text) :
    ∃ found, (event.after contents).answer settings.ruleSlot = .ok found ∧
      found.getD "" = text := by
  cases event with
  | read slot answer =>
      cases answer with
      | error fault => cases gives
      | ok found =>
          rw [ruleText?] at gives
          split at gives
          · rename_i here
            subst here
            cases gives
            exact ⟨found, truthful.symm, rfl⟩
          · cases gives
  | wrote slot written =>
      rw [ruleText?] at gives
      split at gives
      · rename_i here
        subst here
        cases gives
        exact ⟨some text, Contents.answer_put_self contents _ text, rfl⟩
      · cases gives

section Moves

variable {settings : EngineSettings} {stage later : Stage} {event : Event}

theorem Stage.Move.text (valid : settings.fault? = none)
    (move : Move settings stage event later) :
    (event.ruleText? settings = none ∧ later.text? = stage.text?) ∨
      (stage.text? = none ∧
        ∃ text, event.ruleText? settings = some text ∧ later.text? = some text) := by
  obtain ⟨distinct, -, -⟩ := EngineSettings.distinct_of_valid valid
  cases move with
  | @look _ slot answer other =>
      left
      cases answer with
      | error fault => exact ⟨rfl, rfl⟩
      | ok text => exact ⟨if_neg other, rfl⟩
  | refused => exact Or.inl ⟨rfl, rfl⟩
  | take early => exact Or.inr ⟨early, _, if_pos rfl, rfl⟩
  | clear => exact Or.inl ⟨if_neg distinct.symm, rfl⟩
  | write => exact Or.inr ⟨rfl, _, if_pos rfl, rfl⟩
  | fill compiled encoded => exact Or.inl ⟨if_neg distinct.symm, rfl⟩

theorem Stage.Move.no_rule_write (move : Move settings stage event later)
    (notCleared : stage ≠ .cleared) (noCacheWrite : event.text? settings.cacheSlot = none) :
    event.text? settings.ruleSlot = none ∧ later ≠ .cleared := by
  cases move with
  | look other => exact ⟨rfl, notCleared⟩
  | refused => exact ⟨rfl, notCleared⟩
  | take early => exact ⟨rfl, Stage.noConfusion⟩
  | clear => simp [Event.text?] at noCacheWrite
  | write => exact absurd rfl notCleared
  | fill compiled encoded => simp [Event.text?] at noCacheWrite

theorem Stage.Move.rule_write (valid : settings.fault? = none)
    (move : Move settings stage event later) {newer : String}
    (written : event.text? settings.ruleSlot = some newer) :
    stage.text? = none ∧ event = .wrote settings.ruleSlot newer := by
  obtain ⟨distinct, -, -⟩ := EngineSettings.distinct_of_valid valid
  cases move with
  | look other => cases written
  | refused => cases written
  | take early => cases written
  | clear => simp [Event.text?, distinct.symm] at written
  | write =>
      simp only [Event.text?, if_true, Option.some.injEq] at written
      exact ⟨rfl, by rw [written]⟩
  | fill compiled encoded => simp [Event.text?, distinct.symm] at written

theorem Stage.Move.filling (valid : settings.fault? = none)
    (move : Move settings stage event later) {filling : String}
    (written : event.text? settings.cacheSlot = some filling) :
    filling = "" ∨ ∃ text table, later = .filled text ∧
      Table.compile settings.schemaVersion text = .ok table ∧
        Cache.encode table = .ok filling := by
  obtain ⟨distinct, -, -⟩ := EngineSettings.distinct_of_valid valid
  cases move with
  | look other => cases written
  | refused => cases written
  | take early => cases written
  | clear =>
      simp only [Event.text?, if_true, Option.some.injEq] at written
      exact Or.inl written.symm
  | write => simp [Event.text?, distinct] at written
  | fill compiled encoded =>
      simp only [Event.text?, if_true, Option.some.injEq] at written
      subst written
      exact Or.inr ⟨_, _, rfl, compiled, encoded⟩

theorem Stage.Move.filled {text : String} (move : Move settings (.filled text) event later) :
    later = .filled text := by
  cases move with
  | look other => rfl
  | refused => rfl
  | take early => cases early

end Moves

section Staged

variable {settings : EngineSettings} {start contents : Contents} {trace : Trace}
  {stages : Side → Stage}

theorem staged_of_interleaved (valid : settings.fault? = none) {calls : Side → Call}
    {rests : Side → Access Unit}
    (interleaved : Interleaved (fun side => (calls side).work settings) start trace rests contents) :
    ∃ stages, Staged settings start trace stages contents ∧
      ∀ side, (rests side).Follows settings (fun _ _ => True) (stages side) := by
  induction interleaved with
  | start => exact ⟨_, .start, fun side => (calls side).follows_work valid⟩
  | @next trace rests contents side event rest _ step induction =>
      obtain ⟨stages, staged, follows⟩ := induction
      obtain ⟨later, move, followsRest⟩ := (follows side).step step
      refine ⟨_, .next staged step.truthful move, ?_⟩
      intro one
      by_cases same : one = side
      · subst same
        rw [Side.replace_self, Side.replace_self]
        exact followsRest
      · rw [Side.replace_other same, Side.replace_other same]
        exact follows one

theorem Staged.answer (staged : Staged settings start trace stages contents) (slot : String) :
    contents.answer slot =
      match trace.lastWrite slot with
      | some (_, text) => .ok (some text)
      | none => start.answer slot := by
  induction staged with
  | start => rfl
  | @next trace stages contents side event later staged truthful move induction =>
      rw [Event.answer_after, Trace.last_write_append]
      cases event.text? slot with
      | none => exact induction
      | some text => rfl

/-- A process works on the rule text that its accesses have given it, and there is only one. -/
theorem Staged.text_iff (valid : settings.fault? = none)
    (staged : Staged settings start trace stages contents) (one : Side) (text : String) :
    (stages one).text? = some text ↔
      ∃ event, (one, event) ∈ trace ∧ event.ruleText? settings = some text := by
  induction staged with
  | start => simp [Stage.text?]
  | @next trace stages contents side event later staged truthful move induction =>
      have split : (∃ other, (one, other) ∈ trace ++ [(side, event)] ∧
          other.ruleText? settings = some text) ↔
          (stages one).text? = some text ∨
            one = side ∧ event.ruleText? settings = some text := by
        rw [induction]
        constructor
        · rintro ⟨other, inside, gives⟩
          rcases List.mem_append.mp inside with old | new
          · exact Or.inl ⟨other, old, gives⟩
          · cases List.mem_singleton.mp new
            exact Or.inr ⟨rfl, gives⟩
        · rintro (⟨other, inside, gives⟩ | ⟨rfl, gives⟩)
          · exact ⟨other, List.mem_append_left _ inside, gives⟩
          · exact ⟨event, List.mem_append_right _ (List.mem_singleton.mpr rfl), gives⟩
      rw [split]
      by_cases same : one = side
      · subst same
        rw [Side.replace_self]
        rcases move.text valid with ⟨nothing, kept⟩ | ⟨early, taken, gives, holds⟩
        · simp [nothing, kept]
        · simp [early, gives, holds]
      · rw [Side.replace_other same]
        simp [same]

/-- The rule text changes only after some process has emptied the cache slot. -/
theorem Staged.rules_untouched (staged : Staged settings start trace stages contents)
    (untouched : trace.lastWrite settings.cacheSlot = none) :
    trace.lastWrite settings.ruleSlot = none ∧ ∀ side, stages side ≠ .cleared := by
  induction staged with
  | start =>
      refine ⟨rfl, ?_⟩
      intro side impossible
      cases impossible
  | @next trace stages contents side event later staged truthful move induction =>
      rw [Trace.last_write_append] at untouched ⊢
      cases written : event.text? settings.cacheSlot with
      | some text =>
          rw [written] at untouched
          cases untouched
      | none =>
          rw [written] at untouched
          obtain ⟨rules, notCleared⟩ := induction untouched
          have kept := move.no_rule_write (notCleared side) written
          rw [kept.1]
          refine ⟨rules, ?_⟩
          intro one
          by_cases same : one = side
          · subst same
            rw [Side.replace_self]
            exact kept.2
          · rw [Side.replace_other same]
            exact notCleared one

/-- What the cache slot was filled with last is the text of the table of the filler's rule text. -/
theorem Staged.filler (valid : settings.fault? = none)
    (staged : Staged settings start trace stages contents) {one : Side} {filling : String}
    (last : trace.lastWrite settings.cacheSlot = some (one, filling)) :
    filling = "" ∨ ∃ text table, stages one = .filled text ∧
      Table.compile settings.schemaVersion text = .ok table ∧
        Cache.encode table = .ok filling := by
  induction staged with
  | start => cases last
  | @next trace stages contents side event later staged truthful move induction =>
      rw [Trace.last_write_append] at last
      cases written : event.text? settings.cacheSlot with
      | some text =>
          rw [written] at last
          cases last
          rw [Side.replace_self]
          exact move.filling valid written
      | none =>
          rw [written] at last
          rcases induction last with empty | ⟨text, table, filled, compiled, encoded⟩
          · exact Or.inl empty
          · refine Or.inr ⟨text, table, ?_, compiled, encoded⟩
            by_cases same : one = side
            · subst same
              rw [filled] at move
              rw [Side.replace_self]
              exact move.filled
            · rw [Side.replace_other same]
              exact filled

/-- A process that has been overtaken was overtaken by the last change of the rule text. -/
theorem Staged.rules_of_overtakes (valid : settings.fault? = none)
    (staged : Staged settings start trace stages contents) {one : Side} {text newer : String}
    (overtakes : trace.Overtakes settings one text newer) :
    trace.lastWrite settings.ruleSlot = some (one.other, newer) := by
  induction staged with
  | start =>
      obtain ⟨event, -, before⟩ := overtakes
      cases before
  | @next trace stages contents side event later staged truthful move induction =>
      obtain ⟨first, gives, before⟩ := overtakes
      rw [Trace.last_write_append]
      rcases Trace.before_append.mp before with earlier | ⟨inside, last⟩
      · have ended := induction ⟨first, gives, earlier⟩
        have own := (staged.text_iff valid one text).mpr
          ⟨first, earlier.subset List.mem_cons_self, gives⟩
        have others := (staged.text_iff valid one.other newer).mpr
          ⟨_, earlier.subset (List.mem_cons_of_mem _ List.mem_cons_self), if_pos rfl⟩
        have taken : (stages side).text? ≠ none := by
          rcases one.eq_or_eq_other side with rfl | rfl
          · rw [own]
            exact Option.some_ne_none _
          · rw [others]
            exact Option.some_ne_none _
        cases written : event.text? settings.ruleSlot with
        | none => exact ended
        | some text => exact absurd (move.rule_write valid written).1 taken
      · cases last
        simp [Event.text?]

/-- The rule text that a process works on is the one in the store unless it has been overtaken. -/
theorem Staged.current_or_overtakes (valid : settings.fault? = none)
    (staged : Staged settings start trace stages contents) {one : Side} {text : String}
    (works : (stages one).text? = some text) :
    (∃ found, contents.answer settings.ruleSlot = .ok found ∧ found.getD "" = text) ∨
      ∃ newer, trace.Overtakes settings one text newer := by
  induction staged with
  | start => cases works
  | @next trace stages contents side event later staged truthful move induction =>
      have kept : event.text? settings.ruleSlot = none → (stages one).text? = some text →
          (∃ found, (event.after contents).answer settings.ruleSlot = .ok found ∧
            found.getD "" = text) ∨
              ∃ newer, Trace.Overtakes settings (trace ++ [(side, event)]) one text newer := by
        intro notWritten works
        rw [Event.answer_after, notWritten]
        rcases induction works with current | ⟨newer, overtakes⟩
        · exact Or.inl current
        · exact Or.inr ⟨newer, overtakes.append _⟩
      by_cases same : one = side
      · subst same
        rw [Side.replace_self] at works
        rcases move.text valid with ⟨nothing, unchanged⟩ | ⟨early, taken, gives, holds⟩
        · rw [unchanged] at works
          refine kept ?_ works
          cases written : event.text? settings.ruleSlot with
          | none => rfl
          | some newer =>
              obtain ⟨-, rfl⟩ := move.rule_write valid written
              rw [Event.ruleText?, if_pos rfl] at nothing
              cases nothing
        · rw [holds] at works
          cases works
          exact Or.inl (Event.rules_after truthful gives)
      · rw [Side.replace_other same] at works
        cases written : event.text? settings.ruleSlot with
        | none => exact kept written works
        | some newer =>
            obtain ⟨-, rfl⟩ := move.rule_write valid written
            obtain ⟨first, inside, gives⟩ := (staged.text_iff valid one text).mp works
            have beside : side = one.other := by
              rcases one.eq_or_eq_other side with here | there
              · exact absurd here.symm same
              · exact there
            refine Or.inr ⟨newer, first, gives, ?_⟩
            rw [← beside]
            exact Trace.before_append.mpr (Or.inr ⟨inside, rfl⟩)

end Staged

namespace EngineSettings

variable {settings : EngineSettings}

/-- The cache slot gives the table that a rule text compiles to if it holds the text of it. -/
theorem hit_of_compile {contents : Contents} {text filling : String} {table : Table}
    (compiled : Table.compile settings.schemaVersion text = .ok table)
    (encoded : Cache.encode table = .ok filling)
    (filled : contents.answer settings.cacheSlot = .ok (some filling)) :
    (settings.cache.load.perform contents).1 = .hit table := by
  refine CacheSlot.perform_load_eq_hit.mpr
    ⟨filling, filled, Cache.not_blank_of_encode encoded, ?_⟩
  have version := (Table.compiles_of_compile compiled).1
  rw [CacheSlot.accept, Table.decode_of_compile compiled encoded]
  exact if_pos version

section Conclusion

variable {start contents : Contents} {trace : Trace} {stages : Side → Stage}

/-- A filler that has been overtaken leaves a table that is not that of the rule text. -/
theorem not_coherent_of_stale (valid : settings.fault? = none)
    (staged : Staged settings start trace stages contents) (stale : trace.Stale settings) :
    ¬ settings.Coherent contents := by
  obtain ⟨side, filling, text, newer, last, present, overtakes, different⟩ := stale
  have cache := staged.answer settings.cacheSlot
  have rules := staged.answer settings.ruleSlot
  rw [last] at cache
  rw [staged.rules_of_overtakes valid overtakes] at rules
  intro kept
  rcases staged.filler valid last with empty | ⟨held, table, filled, compiled, encoded⟩
  · exact present empty
  · -- The filler has had one rule text only, so it is the one that was overtaken.
    obtain ⟨event, gives, before⟩ := overtakes
    have works := (staged.text_iff valid side text).mpr
      ⟨event, before.subset List.mem_cons_self, gives⟩
    rw [filled] at works
    cases works
    have current := kept table (hit_of_compile compiled encoded cache)
    rw [ruleTable, rules] at current
    exact different (compiled.trans current.symm)

theorem coherent_of_not_stale (valid : settings.fault? = none) (coherent : settings.Coherent start)
    (staged : Staged settings start trace stages contents) (fresh : ¬ trace.Stale settings) :
    settings.Coherent contents := by
  have cache := staged.answer settings.cacheSlot
  have rules := staged.answer settings.ruleSlot
  cases last : trace.lastWrite settings.cacheSlot with
  | none =>
      rw [last] at cache
      rw [(staged.rules_untouched last).1] at rules
      exact coherent.congr cache rules
  | some entry =>
      obtain ⟨side, filling⟩ := entry
      rw [last] at cache
      by_cases present : filling = ""
      · subst present
        exact coherent_of_empty cache
      · rcases staged.filler valid last with empty | ⟨text, table, filled, compiled, encoded⟩
        · exact absurd empty present
        · apply coherent_of_filled encoded cache
          have works : (stages side).text? = some text := by
            rw [filled]
            rfl
          rcases staged.current_or_overtakes valid works with
            ⟨found, answered, same⟩ | ⟨newer, overtakes⟩
          · rw [ruleTable, answered, ← compiled, ← same]
          · -- The text was replaced, but by one with the same table.
            rw [staged.rules_of_overtakes valid overtakes] at rules
            by_cases equal : Table.compile settings.schemaVersion text =
                Table.compile settings.schemaVersion newer
            · rw [ruleTable, rules, ← compiled, equal]
              rfl
            · exact absurd ⟨side, filling, text, newer, last, present, overtakes, equal⟩ fresh

end Conclusion

/-- Whatever two processes do at the same time, the cache slot gives no other table than that of the
rule text, unless it was filled last by a process that had been overtaken. -/
theorem coherent_iff_not_stale (valid : settings.fault? = none) {start contents : Contents}
    (coherent : settings.Coherent start) (calls : Side → Call) {trace : Trace}
    {rests : Side → Access Unit}
    (interleaved : Interleaved (fun side => (calls side).work settings) start trace rests contents) :
    settings.Coherent contents ↔ ¬ trace.Stale settings := by
  obtain ⟨stages, staged, -⟩ := staged_of_interleaved valid interleaved
  constructor
  · intro kept stale
    exact not_coherent_of_stale valid staged stale kept
  · exact coherent_of_not_stale valid coherent staged

def raceStart : Contents :=
  Contents.put (Contents.put .empty "DB_VERSION" "0.20.11") "RackCode" "allow true"

/-- One process starts an authority while another takes the rules away. -/
def raceCalls : Side → Call
  | .left => .start (.ok [])
  | .right => .install ""

/-- The first process takes the rule text, the second does all its work, and then the first fills the
cache slot. -/
def raceOrder : List Side := [.left, .left, .left, .right, .right, .right, .right, .left]

def raceEnd : (Side → Access Unit) × Contents :=
  Access.interleave (fun side => (raceCalls side).work .standard) raceStart raceOrder

theorem coherent_race_start : EngineSettings.standard.Coherent raceStart := by
  have cache : raceStart.answer EngineSettings.standard.cacheSlot = .ok none := by
    rw [raceStart, Contents.answer_put_other (by decide), Contents.answer_put_other (by decide)]
    rfl
  apply coherent_of_no_text
  intro text found
  rw [cache] at found
  cases found

theorem interleaved_race :
    ∃ trace, Interleaved (fun side => (raceCalls side).work .standard) raceStart trace
      raceEnd.1 raceEnd.2 := by
  have begun : Interleaved (fun side => (raceCalls side).work .standard) raceStart []
      (fun side => (raceCalls side).work .standard) raceStart := .start
  exact begun.interleave raceOrder

theorem not_coherent_race_end : ¬ EngineSettings.standard.Coherent raceEnd.2 := by
  intro kept
  have held : (EngineSettings.standard.cache.load.perform raceEnd.2).1.table?.map Table.size =
      some 1 := by decide +kernel
  have written : (EngineSettings.standard.ruleTable raceEnd.2).toOption.map Table.size =
      some 0 := by decide +kernel
  cases looked : (EngineSettings.standard.cache.load.perform raceEnd.2).1 with
  | miss rejected =>
      rw [looked] at held
      cases held
  | hit table =>
      rw [kept table looked] at written
      rw [looked] at held
      cases held.symm.trans written

theorem race_is_stale :
    ∃ trace, Interleaved (fun side => (raceCalls side).work .standard) raceStart trace
      raceEnd.1 raceEnd.2 ∧ trace.Stale .standard := by
  obtain ⟨trace, interleaved⟩ := interleaved_race
  have exactly :=
    coherent_iff_not_stale (by decide) coherent_race_start raceCalls interleaved
  refine ⟨trace, interleaved, ?_⟩
  by_cases stale : trace.Stale .standard
  · exact stale
  · exact absurd (exactly.mpr stale) not_coherent_race_end

/-- The next process would have the rules that were taken away. -/
theorem stale_table_after_race :
    EngineSettings.standard.fault? = none ∧ EngineSettings.standard.Coherent raceStart ∧
      ∃ trace, Interleaved (fun side => (raceCalls side).work .standard) raceStart trace
        raceEnd.1 raceEnd.2 ∧ (∀ side, raceEnd.1 side = .done ()) ∧
          ¬ EngineSettings.standard.Coherent raceEnd.2 := by
  obtain ⟨trace, interleaved⟩ := interleaved_race
  refine ⟨by decide, coherent_race_start, trace, interleaved, ?_, not_coherent_race_end⟩
  intro side
  apply Access.eq_done_of_finished
  cases side
  · decide +kernel
  · decide +kernel

end EngineSettings

end TagPolicy
