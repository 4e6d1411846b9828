import TagPolicy.Authority.Pool
import TagPolicy.Proofs.Authority.Installation

/-!
The counters of an authority account for its life: one lookup, the compilation that a miss leads to,
every rule text that compiled, and every request with its answer. Nothing is assumed of the stores,
since none of this depends on what they answer, and other authorities of the process do not matter.
-/

namespace TagPolicy

namespace Access

variable {α β : Type}

/-- What a piece of work may end with, whatever a store answers to its accesses. -/
inductive Ends : Access α → α → Prop
  | done {result : α} : Ends (.done result) result
  | get {slot : String} {next : Except StorageFault (Option String) → Access α} {result : α}
      (answer : Except StorageFault (Option String)) :
      Ends (next answer) result → Ends (.get slot next) result
  | set {slot text : String} {next : Except StorageFault Unit → Access α} {result : α}
      (outcome : Except StorageFault Unit) :
      Ends (next outcome) result → Ends (.set slot text next) result

theorem ends_pure {value result : α} : (pure value : Access α).Ends result ↔ value = result := by
  constructor
  · intro ends
    cases ends
    rfl
  · rintro rfl
    exact .done

/-- Work that is followed by more ends on the way. -/
theorem Ends.middle {work : Access α} {next : α → Access β} {result : β}
    (ends : (work >>= next).Ends result) :
    ∃ middle, work.Ends middle ∧ (next middle).Ends result := by
  induction work with
  | done middle => exact ⟨middle, .done, ends⟩
  | get slot further induction =>
      cases ends with
      | get answer rest =>
          obtain ⟨middle, first, second⟩ := induction answer rest
          exact ⟨middle, .get answer first, second⟩
  | set slot text further induction =>
      cases ends with
      | set outcome rest =>
          obtain ⟨middle, first, second⟩ := induction outcome rest
          exact ⟨middle, .set outcome first, second⟩

/-- Whatever fails, an attempt is one of the ways in which work may end. -/
theorem ends_attempt (work : Access α) (faults : Faults) (contents : Contents) :
    work.Ends (work.attempt faults contents).result := by
  induction work generalizing faults contents with
  | done result => exact .done
  | get slot next induction => exact .get _ (induction _ _ _)
  | set slot text next induction =>
      rw [attempt]
      cases faults 0 with
      | none => exact .set (.ok ()) (induction _ _ _)
      | some fault => exact .set (.error fault) (induction _ _ _)

end Access

open Access (Ends ends_attempt ends_pure)

inductive Occurrence
  | authorized (subject target : Context) (action : Action) (decision : Decision)
  /-- Whoever asks learns whether it is allowed, and not which rule decided. -/
  | permitted (subject : Context) (action : Action) (allowed : Bool) (rule : Option UInt32)
  | installed (text : String) (outcome : Except Failure Unit)
  /-- The time that a decision took is recorded. -/
  | timed (nanoseconds : Nat)

namespace Occurrence

def isRequest : Occurrence → Bool
  | authorized .. | permitted .. => true
  | installed .. | timed _ => false

/-- Whether a request was answered with yes. -/
def allows : Occurrence → Bool
  | authorized _ _ _ decision => decision.isAllowed
  | permitted _ _ allowed _ => allowed
  | installed .. | timed _ => false

def isUnmatched : Occurrence → Bool
  | authorized _ _ _ decision => decision.rule.isNone
  | permitted _ _ _ rule => rule.isNone
  | installed .. | timed _ => false

/-- Whether a rule text was installed that compiles; its writes may have failed. -/
def compiles (schemaVersion : String) : Occurrence → Bool
  | installed text _ => (Table.compile schemaVersion text).isOk
  | authorized .. | permitted .. | timed _ => false

end Occurrence

namespace Authority

def timed (authority : Authority) (nanoseconds : Nat) : Authority :=
  { authority with
    metrics := { authority.metrics with
      latencies := authority.metrics.latencies.record nanoseconds } }

inductive Step : Authority → Occurrence → Authority → Prop
  | authorize {authority later : Authority} {subject target : Context} {action : Action}
      {decision : Decision} : authority.authorize subject target action = (decision, later) →
        Step authority (.authorized subject target action decision) later
  | permit {authority later : Authority} {subject : Context} {action : Action} {allowed : Bool}
      {rule : Option UInt32} : authority.permitted subject action = (allowed, later) →
        (authority.authorize subject .empty action).1.rule = rule →
          Step authority (.permitted subject action allowed rule) later
  | install {authority later : Authority} {text : String} {outcome : Except Failure Unit} :
      (authority.install text).Ends (outcome, later) →
        Step authority (.installed text outcome) later
  | time {authority : Authority} {nanoseconds : Nat} :
      Step authority (.timed nanoseconds) (authority.timed nanoseconds)

theorem step_authorize (authority : Authority) (subject target : Context) (action : Action) :
    authority.Step
      (.authorized subject target action (authority.authorize subject target action).1)
      (authority.authorize subject target action).2 := .authorize rfl

theorem step_permitted (authority : Authority) (subject : Context) (action : Action) :
    authority.Step
      (.permitted subject action (authority.permitted subject action).1
        (authority.authorize subject .empty action).1.rule)
      (authority.permitted subject action).2 := .permit rfl rfl

/-- An installation comes to an end, whatever fails. -/
theorem step_install (authority : Authority) (text : String) (faults : Faults)
    (contents : Contents) :
    authority.Step
      (.installed text ((authority.install text).attempt faults contents).result.1)
      ((authority.install text).attempt faults contents).result.2 :=
  .install (ends_attempt _ faults contents)

end Authority

/-- The counters say what has happened since the start, and how the start came by its table. -/
structure Counters.Account (schemaVersion : String) (past : List Occurrence)
    (counters : Counters) : Prop where
  lookup : counters.cacheHits + counters.cacheMisses = 1
  corruptions : counters.cacheCorruptions ≤ counters.cacheMisses
  compilations : counters.compilations =
    counters.cacheMisses + past.countP (Occurrence.compiles schemaVersion)
  requests : counters.requests = past.countP Occurrence.isRequest
  answers : counters.requests = counters.allowed + counters.denied
  allowed : counters.allowed = past.countP Occurrence.allows
  defaults : counters.defaultDenials = past.countP Occurrence.isUnmatched
  denials : counters.defaultDenials ≤ counters.denied

namespace Counters

variable {schemaVersion : String} {past : List Occurrence} {counters : Counters}
  {occurrence : Occurrence}

theorem account_lookup_hit (table : Table) :
    (zero.countLookup (.hit table)).Account schemaVersion [] := by
  constructor <;> simp [countLookup, countHit, zero]

/-- A miss leads to a compilation. -/
theorem account_lookup_miss (rejected : Option Cache.Corruption) :
    (zero.countLookup (.miss rejected)).countCompilation.Account schemaVersion [] := by
  cases rejected <;> constructor <;>
    simp [countLookup, countMiss, countCorruption, countCompilation, zero]

/-- A request is counted, and so is its answer. -/
theorem Account.request (account : counters.Account schemaVersion past)
    (request : occurrence.isRequest = true) (compiles : occurrence.compiles schemaVersion = false)
    (denies : occurrence.isUnmatched = true → occurrence.allows = false) :
    (counters.countRequest occurrence.allows occurrence.isUnmatched).Account schemaVersion
      (past ++ [occurrence]) := by
  obtain ⟨lookup, corruptions, compilations, requests, answers, allowed, defaults, denials⟩ :=
    account
  cases yes : occurrence.allows with
  | true =>
      have matched : occurrence.isUnmatched = false := by
        cases unmatched : occurrence.isUnmatched with
        | false => rfl
        | true =>
            rw [denies unmatched] at yes
            cases yes
      constructor <;> simp [countRequest, request, compiles, yes, matched] <;> omega
  | false =>
      cases unmatched : occurrence.isUnmatched <;> constructor <;>
        simp [countRequest, request, compiles, yes, unmatched] <;> omega

/-- What is no request may be a compilation. -/
theorem Account.other (account : counters.Account schemaVersion past)
    (request : occurrence.isRequest = false) (allows : occurrence.allows = false)
    (matched : occurrence.isUnmatched = false) :
    (if occurrence.compiles schemaVersion then counters.countCompilation
      else counters).Account schemaVersion (past ++ [occurrence]) := by
  obtain ⟨lookup, corruptions, compilations, requests, answers, allowed, defaults, denials⟩ :=
    account
  cases compiles : occurrence.compiles schemaVersion <;> constructor <;>
    simp [countCompilation, request, allows, matched, compiles] <;> omega

end Counters

/-- A request that no rule decides is denied. -/
theorem Table.not_allowed_of_unmatched {table : Table} {facts : Facts}
    (unmatched : (table.decide facts).rule.isNone = true) :
    (table.decide facts).isAllowed = false := by
  rw [decide] at unmatched ⊢
  cases found : table.firstMatch facts with
  | none => rfl
  | some rule =>
      rw [found] at unmatched
      cases unmatched

namespace EngineSettings

variable {settings : EngineSettings} {table : Table} {counters : Counters}

theorem account_of_obtain_table (ends : settings.obtainTable.Ends (.ok (table, counters))) :
    counters.Account settings.schemaVersion [] := by
  obtain ⟨lookup, -, rest⟩ := ends.middle
  cases lookup with
  | hit found =>
      cases ends_pure.mp rest
      exact Counters.account_lookup_hit _
  | miss rejected =>
      obtain ⟨outcome, -, rest⟩ := rest.middle
      cases outcome with
      | error failure => cases ends_pure.mp rest
      | ok compiled =>
          cases ends_pure.mp rest
          exact Counters.account_lookup_miss rejected

end EngineSettings

namespace Authority

/-- The authority belongs to the settings, and its counters say what has happened to it. -/
structure Accounts (settings : EngineSettings) (past : List Occurrence) (authority : Authority) :
    Prop where
  settings_eq : authority.settings = settings
  account : authority.metrics.counters.Account settings.schemaVersion past

variable {settings : EngineSettings} {authority later : Authority} {past : List Occurrence}
  {occurrence : Occurrence}

/-- Nothing has happened to an authority that has just been started. -/
theorem accounts_start {tags : Except StorageFault (List Tag)}
    (ends : (start settings tags).Ends (.ok authority)) : authority.Accounts settings [] := by
  obtain ⟨admission, -, rest⟩ := ends.middle
  cases admission with
  | error failure => cases ends_pure.mp rest
  | ok admitted =>
      obtain ⟨outcome, obtained, rest⟩ := rest.middle
      cases outcome with
      | error failure => cases ends_pure.mp rest
      | ok found =>
          cases tags with
          | error fault => cases ends_pure.mp rest
          | ok tags =>
              dsimp only at rest
              cases built : TagTree.build tags with
              | error fault =>
                  rw [built] at rest
                  cases ends_pure.mp rest
              | ok tree =>
                  rw [built] at rest
                  cases ends_pure.mp rest
                  exact ⟨rfl, EngineSettings.account_of_obtain_table obtained⟩

/-- An installation counts a compilation as soon as its text compiles. -/
theorem counters_of_install {text : String} {outcome : Except Failure Unit}
    (ends : (authority.install text).Ends (outcome, later)) :
    later.settings = authority.settings ∧ later.metrics.counters =
      if (authority.validate text).isOk then authority.metrics.counters.countCompilation
      else authority.metrics.counters := by
  rw [install] at ends
  cases validated : authority.validate text with
  | error failure =>
      rw [validated] at ends
      cases ends_pure.mp ends
      exact ⟨rfl, rfl⟩
  | ok table =>
      rw [validated] at ends
      obtain ⟨commit, -, rest⟩ := ends.middle
      cases ends_pure.mp rest
      cases commit.written <;> exact ⟨rfl, rfl⟩

theorem Step.accounts (step : authority.Step occurrence later)
    (accounts : authority.Accounts settings past) :
    later.Accounts settings (past ++ [occurrence]) := by
  obtain ⟨rfl, account⟩ := accounts
  cases step with
  | authorize asked =>
      cases asked
      exact ⟨rfl, account.request rfl rfl Table.not_allowed_of_unmatched⟩
  | permit asked decided =>
      cases asked
      cases decided
      exact ⟨rfl, account.request rfl rfl Table.not_allowed_of_unmatched⟩
  | install ends =>
      obtain ⟨same, counted⟩ := counters_of_install ends
      refine ⟨same, ?_⟩
      rw [counted]
      exact account.other rfl rfl rfl
  | time => exact ⟨rfl, account.other rfl rfl rfl⟩

end Authority

namespace Pool

variable {pool after : Pool} {engine other : Engine} {authority later : Authority}

inductive Happening
  | started (authority : Authority)
  | used (engine : Engine) (occurrence : Occurrence)

def Happening.occurrence? (engine : Engine) : Happening → Option Occurrence
  | started _ => none
  | used other occurrence => if other = engine then some occurrence else none

inductive Step : Pool → Happening → Pool → Prop
  | start {pool : Pool} {authority : Authority} :
      Step pool (.started authority) (pool.add authority).2
  | use {pool : Pool} {engine : Engine} {authority later : Authority} {occurrence : Occurrence} :
      pool.authorityOf? engine = some authority → authority.Step occurrence later →
        Step pool (.used engine occurrence) (pool.update engine later)

/-- The authorities of a process at first, and after a number of happenings. -/
inductive Runs (pool : Pool) : List Happening → Pool → Prop
  | start : Runs pool [] pool
  | next {past : List Happening} {happening : Happening} {before after : Pool} :
      Runs pool past before → Step before happening after → Runs pool (past ++ [happening]) after

theorem authority_of_add_self (pool : Pool) (authority : Authority) :
    (pool.add authority).2.authorityOf? (pool.add authority).1 = some authority :=
  Array.getElem?_push_size

theorem authority_of_add_of_some (present : pool.authorityOf? engine = some authority) :
    (pool.add later).2.authorityOf? engine = some authority := by
  have inside := (Array.getElem?_eq_some_iff.mp present).1
  rw [authorityOf?, add, Array.getElem?_push, if_neg (Nat.ne_of_lt inside)]
  exact present

theorem authority_of_update_self (present : pool.authorityOf? engine = some authority)
    (later : Authority) : (pool.update engine later).authorityOf? engine = some later := by
  have inside := (Array.getElem?_eq_some_iff.mp present).1
  rw [authorityOf?, update, Array.getElem?_setIfInBounds, if_pos rfl, if_pos inside]

theorem authority_of_update_of_ne (different : other ≠ engine) :
    (pool.update other later).authorityOf? engine = pool.authorityOf? engine := by
  have apart : other.authority ≠ engine.authority := fun equal =>
    different (congrArg Engine.mk equal)
  rw [authorityOf?, update, Array.getElem?_setIfInBounds, if_neg apart]
  rfl

/-- An engine has the authority that its last use has left. -/
theorem Runs.use {past : List Happening} {before : Pool} {occurrence : Occurrence}
    (runs : Runs pool past before) (present : before.authorityOf? engine = some authority)
    (step : authority.Step occurrence later) :
    Runs pool (past ++ [.used engine occurrence]) (before.update engine later) ∧
      (before.update engine later).authorityOf? engine = some later :=
  ⟨runs.next (.use present step), authority_of_update_self present later⟩

/-- An authority changes through its own engine only. -/
theorem Step.authority_of {happening : Happening} (step : Step pool happening after)
    (present : pool.authorityOf? engine = some authority) :
    ∃ later, after.authorityOf? engine = some later ∧
      match happening.occurrence? engine with
      | none => later = authority
      | some occurrence => authority.Step occurrence later := by
  cases step with
  | start => exact ⟨authority, authority_of_add_of_some present, rfl⟩
  | @use other used later occurrence found happened =>
      rw [Happening.occurrence?]
      by_cases same : other = engine
      · subst same
        rw [present] at found
        cases found
        rw [if_pos rfl]
        exact ⟨later, authority_of_update_self present later, happened⟩
      · rw [if_neg same]
        exact ⟨authority, (authority_of_update_of_ne same).trans present, rfl⟩

theorem Runs.accounts {settings : EngineSettings} {past : List Happening}
    (runs : Runs pool past after) (present : pool.authorityOf? engine = some authority)
    (accounts : authority.Accounts settings []) :
    ∃ later, after.authorityOf? engine = some later ∧
      later.Accounts settings (past.filterMap (Happening.occurrence? engine)) := by
  induction runs with
  | start => exact ⟨authority, present, accounts⟩
  | @next past happening before after _ step induction =>
      obtain ⟨now, present, accounts⟩ := induction
      obtain ⟨later, found, change⟩ := step.authority_of present
      refine ⟨later, found, ?_⟩
      rw [List.filterMap_append]
      cases own : happening.occurrence? engine with
      | none =>
          rw [own] at change
          cases change
          simpa [own] using accounts
      | some occurrence =>
          rw [own] at change
          simpa [own] using change.accounts accounts

/-- Whatever a store answered to the start of an authority and whatever happens to it and beside it
afterwards, its counters account for it: there was one lookup, and a corruption only with a miss;
compilations are the one of a miss and those of the texts installed that compile, whether their
writes succeed or not; requests are counted, and each is allowed or denied; the allowed are the
answers that allow; and denials by default are the answers without a rule, all of them denials. -/
theorem counters_account {settings : EngineSettings} {tags : Except StorageFault (List Tag)}
    (started : (Authority.start settings tags).Ends (.ok authority)) {past : List Happening}
    (runs : Runs (pool.add authority).2 past after) :
    ∃ later, after.authorityOf? (pool.add authority).1 = some later ∧
      later.Accounts settings (past.filterMap (Happening.occurrence? (pool.add authority).1)) :=
  runs.accounts (authority_of_add_self pool authority) (Authority.accounts_start started)

def closedAuthority : Authority :=
  (((Authority.start .standard (.ok [])).attempt (fun _ => none) closedStore).result.toOption).getD
    idleAuthority

/-- An authority after a request, an installation of rules that allow everything whose last write
fails, and another request. -/
def opened (authority : Authority) : Authority :=
  let asked := (authority.permitted .empty .access).2
  let installed := ((asked.install "allow true").attempt thirdFails closedStore).result.2
  (installed.authorize .empty .empty .access).2

theorem runs_opened (authority : Authority) :
    ∃ past after, Runs (Pool.empty.add authority).2 past after ∧
      after.authorityOf? (Pool.empty.add authority).1 = some (opened authority) := by
  have added := authority_of_add_self .empty authority
  obtain ⟨asked, present⟩ := Runs.start.use added (authority.step_permitted .empty .access)
  obtain ⟨installed, present⟩ :=
    asked.use present (Authority.step_install _ "allow true" thirdFails closedStore)
  obtain ⟨repeated, present⟩ :=
    installed.use present (Authority.step_authorize _ .empty .empty .access)
  exact ⟨_, _, repeated, present⟩

theorem counters_after_failed_write :
    (Authority.start .standard (.ok [])).Ends (.ok closedAuthority) ∧
      ∃ past after, Runs (Pool.empty.add closedAuthority).2 past after ∧
        after.authorityOf? (Pool.empty.add closedAuthority).1 = some (opened closedAuthority) ∧
          (opened closedAuthority).Accounts .standard
            (past.filterMap (Happening.occurrence? (Pool.empty.add closedAuthority).1)) ∧
              (opened closedAuthority).metrics.counters = ⟨2, 1, 1, 0, 0, 1, 0, 2⟩ := by
  have begins := ends_attempt (Authority.start .standard (.ok [])) (fun _ => none) closedStore
  have succeeds : ((Authority.start .standard (.ok [])).attempt (fun _ => none)
      closedStore).result.isOk = true := by
    decide +kernel
  have started : (Authority.start .standard (.ok [])).Ends (.ok closedAuthority) := by
    rw [closedAuthority]
    cases result : ((Authority.start .standard (.ok [])).attempt (fun _ => none)
        closedStore).result with
    | error failure =>
        rw [result] at succeeds
        cases succeeds
    | ok authority =>
        rw [result] at begins
        exact begins
  obtain ⟨past, after, runs, present⟩ := runs_opened closedAuthority
  obtain ⟨later, found, accounts⟩ := counters_account started runs
  have same : opened closedAuthority = later := Option.some.inj (present.symm.trans found)
  rw [← same] at accounts
  exact ⟨started, past, after, runs, present, accounts, by decide +kernel⟩

end Pool

end TagPolicy
