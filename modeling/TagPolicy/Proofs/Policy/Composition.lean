import Mathlib.Data.List.Find
import TagPolicy.Failure
import TagPolicy.Policy.Decision
import TagPolicy.Proofs.Language.Joining
import TagPolicy.Proofs.Policy.Pass
import TagPolicy.Proofs.Policy.Reduction
import TagPolicy.Proofs.Policy.Relocation

/-!
One table on top of another. The predicates and rules of the lower one come behind those of the upper
one, with their references, orders and lines counted on. The upper rules decide what they decided
alone, and the lower ones decide the rest as they did alone. This is the table of the two rule texts
one below the other, as long as its predicates and rules can be numbered.
-/

namespace TagPolicy

open TagPolicy.Language (Document Expr Statement feedsAbove)
open Outcome (bind_eq_ok ok_bind)

def behind (count : Nat) (index : UInt32) : UInt32 := UInt32.ofNat (index.toNat + count)

theorem toNat_behind {count : Nat} {index : UInt32} (room : index.toNat + count < UInt32.size) :
    (behind count index).toNat = index.toNat + count := UInt32.toNat_ofNat_of_lt' room

/-- Predicates and others behind them, which refer to each other at their new places. -/
def stacked (upper lower : List Predicate) : List Predicate :=
  upper ++ lower.map (Predicate.redirected (behind upper.length))

section Stacked

variable {upper lower : List Predicate} {position : Nat} {predicate : Predicate}

@[simp] theorem length_stacked : (stacked upper lower).length = upper.length + lower.length := by
  rw [stacked, List.length_append, List.length_map]

theorem names_stacked :
    (stacked upper lower).map Predicate.name = (upper ++ lower).map Predicate.name := by
  rw [stacked, List.map_append, List.map_append, List.map_map]
  rfl

theorem getElem?_stacked (present : lower[position]? = some predicate) :
    (stacked upper lower)[position + upper.length]? =
      some (predicate.redirected (behind upper.length)) := by
  rw [stacked, List.getElem?_append_right (Nat.le_add_left _ _), Nat.add_sub_cancel,
    List.getElem?_map, present, Option.map_some]

theorem stacked_nil : stacked upper [] = upper := List.append_nil upper

theorem stacked_append (added : Predicate) :
    stacked upper (lower ++ [added]) =
      stacked upper lower ++ [added.redirected (behind upper.length)] := by
  rw [stacked, stacked, List.map_append, List.append_assoc]
  rfl

end Stacked

/-- The rule behind that many predicates and rules, and that many lines further down. -/
def Rule.beneath (predicates rules lines : Nat) (rule : Rule) : Rule where
  condition := rule.condition.redirected (behind predicates)
  effect := rule.effect
  order := UInt32.ofNat (rule.order.toNat + rules)
  line := UInt32.ofNat (min (rule.line.toNat + lines) maxCount)

namespace Table

/-- The table on top of another, whose text begins that many lines further down. -/
def atop (lines : Nat) (upper lower : Table) : Table where
  schemaVersion := upper.schemaVersion
  predicates := stacked upper.predicates lower.predicates
  rules := upper.rules ++
    lower.rules.map (Rule.beneath upper.predicates.length upper.rules.length lines)

/-- The predicates and rules of both tables can be numbered. -/
structure RoomFor (upper lower : Table) : Prop where
  predicates : upper.predicates.length + lower.predicates.length ≤ 2 ^ 32
  rules : upper.rules.length + lower.rules.length < 2 ^ 32

end Table

section Meaning

variable {upper lower more : List Predicate} {facts : Facts} {index : Nat}

/-- Predicates mean what they mean without those that come behind them. -/
theorem meaning_of_front (inside : index < upper.length) :
    meaningOf (upper ++ more) facts index = meaningOf upper facts index := by
  induction index using Nat.strongRecOn with
  | ind index induction =>
      have present := List.getElem?_eq_getElem inside
      have again : (upper ++ more)[index]? = some upper[index] := by
        rw [List.getElem?_append_left inside, present]
      rw [meaning_of_eq again, meaning_of_eq present]
      congr 1
      funext earlier
      by_cases before : earlier < index
      · rw [induction earlier before (Nat.lt_trans before inside)]
      · simp [before]

/-- Predicates behind others mean what they mean alone. -/
theorem meaning_of_behind (backward : Backward lower)
    (room : upper.length + lower.length ≤ UInt32.size) (inside : index < lower.length) :
    meaningOf (stacked upper lower) facts (index + upper.length) = meaningOf lower facts index := by
  induction index using Nat.strongRecOn with
  | ind index induction =>
      have present := List.getElem?_eq_getElem inside
      rw [meaning_of_eq (getElem?_stacked present), meaning_of_eq present]
      apply Condition.holds_redirected
      intro referred reference
      have before := backward index _ present referred reference
      have place : (behind upper.length referred).toNat = referred.toNat + upper.length :=
        toNat_behind (by omega)
      rw [place, induction _ before (Nat.lt_trans before inside)]
      simp [before]

end Meaning

section Compiling

variable {final middle predicates base : List Predicate} {before order lines : Nat}
  {first second statements : List Statement} {rules later : List Rule}

theorem Compiles.names (compiles : Compiles final predicates before statements rules) :
    final.map Predicate.name = predicates.map Predicate.name ++ Document.definedBy statements := by
  induction compiles with
  | nil => exact (List.append_nil _).symm
  | define _ _ _ _ induction =>
      rw [induction, Document.defined_by_cons, List.map_append, List.append_assoc]
      rfl
  | rule _ _ _ induction => exact induction

theorem Compiles.predicates_length (compiles : Compiles final [] before statements rules) :
    final.length = (Document.definedBy statements).length := by
  have same := congrArg List.length compiles.names
  rw [List.length_map] at same
  exact same

theorem rules_length_lowered :
    ((statements.map (Statement.lowered lines)).filterMap Statement.rule?).length =
      (statements.filterMap Statement.rule?).length := by
  induction statements with
  | nil => rfl
  | cons statement rest induction =>
      cases statement with
      | define => exact induction
      | rule => exact congrArg (· + 1) induction

theorem Compiles.rules_length_le (compiles : Compiles final predicates before statements rules)
    (room : before ≤ maxCount) : before + rules.length ≤ maxCount := by
  induction compiles with
  | nil => exact room
  | define _ _ _ _ induction => exact induction room
  | rule _ below _ induction =>
      have all := induction below
      rw [List.length_cons]
      omega

theorem compile_statements_define {name : String} {body : Expr} {line : Nat} {condition : Condition}
    (fresh : name ∉ predicates.map Predicate.name) (lowered : lower predicates body = .ok condition)
    (room : predicates.length ≤ maxCount) :
    compileStatements predicates before (.define name body line :: statements) =
      compileStatements (predicates ++ [⟨name, condition⟩]) before statements := by
  rw [compileStatements, if_neg fresh, lowered, ok_bind, if_neg (Nat.not_lt.mpr room)]

theorem compile_statements_rule {effect : Effect} {written : Expr} {line : Nat}
    {condition : Condition} (lowered : lower predicates written = .ok condition)
    (room : before + 1 ≤ maxCount)
    (continues : compileStatements predicates (before + 1) statements = .ok (final, rules)) :
    compileStatements predicates before (.rule effect written line :: statements) =
      .ok (final, ⟨condition, effect, UInt32.ofNat (before + 1),
        UInt32.ofNat (min line maxCount)⟩ :: rules) := by
  rw [compileStatements, lowered, ok_bind, if_neg (Nat.not_lt.mpr room), continues]
  rfl

/-- Statements that follow others are compiled after them. -/
theorem Compiles.followed (compiles : Compiles middle predicates before first rules)
    (continues : compileStatements middle (before + rules.length) second = .ok (final, later)) :
    compileStatements predicates before (first ++ second) = .ok (final, rules ++ later) := by
  induction compiles with
  | nil => exact continues
  | define fresh lowered room _ induction =>
      rw [List.cons_append, compile_statements_define fresh lowered room]
      exact induction continues
  | rule lowered room _ induction =>
      rw [List.length_cons, Nat.add_comm _ 1, ← Nat.add_assoc] at continues
      exact compile_statements_rule lowered room (induction continues)

/-- Predicates are found behind others as they are found alone, if their names are different. -/
theorem redirects_stacked (distinct : ((base ++ predicates).map Predicate.name).Nodup)
    (room : base.length + predicates.length ≤ UInt32.size) :
    Redirects (behind base.length) predicates (stacked base predicates) := by
  intro position predicate present
  have inside := (List.getElem?_eq_some_iff.mp present).1
  rw [← names_stacked] at distinct
  refine ⟨position + base.length, ?_, ?_⟩
  · rw [← Nat.zero_add (position + base.length)]
    exact lookup_from_of_distinct 0 distinct (getElem?_stacked present)
  · rw [behind, UInt32.toNat_ofNat_of_lt' (by omega)]

/-- The line of a rule is counted on from the line that was recorded, not from the one in the text. -/
theorem line_beneath (line lines : Nat) :
    UInt32.ofNat (min ((UInt32.ofNat (min line maxCount)).toNat + lines) maxCount) =
      UInt32.ofNat (min (line + lines) maxCount) := by
  have small : maxCount < UInt32.size := by decide
  rw [UInt32.toNat_ofNat_of_lt' (by omega)]
  congr 1
  omega

/-- Where all names in the end are different, so are those so far, and the rest are new. -/
theorem Compiles.apart (compiles : Compiles final predicates before statements rules)
    (distinct : ((base ++ final).map Predicate.name).Nodup) :
    ((base ++ predicates).map Predicate.name).Nodup ∧
      ∀ name ∈ Document.definedBy statements, name ∉ (base ++ predicates).map Predicate.name := by
  rw [List.map_append, compiles.names, ← List.append_assoc, ← List.map_append,
    List.nodup_append] at distinct
  exact ⟨distinct.1, fun name added inside => distinct.2.2 name inside name added rfl⟩

/-- Statements compile behind other predicates and rules as they do alone. -/
theorem Compiles.beneath (lines : Nat)
    (compiles : Compiles final predicates before statements rules)
    (distinct : ((base ++ final).map Predicate.name).Nodup)
    (predicateRoom : base.length + final.length ≤ UInt32.size)
    (ruleRoom : order + before + rules.length ≤ maxCount) :
    compileStatements (stacked base predicates) (order + before)
        (statements.map (Statement.lowered lines)) =
      .ok (stacked base final, rules.map (Rule.beneath base.length order lines)) := by
  have small : maxCount + 1 = UInt32.size := rfl
  induction compiles with
  | nil => rfl
  | @define predicates before name body line condition rest rules fresh lowered room compiles
      induction =>
      have whole : Compiles final predicates before (.define name body line :: rest) rules :=
        .define fresh lowered room compiles
      have shorter := compiles.take.1
      rw [List.length_append, List.length_singleton] at shorter
      obtain ⟨distinctSoFar, new⟩ := whole.apart distinct
      have redirects := redirects_stacked distinctSoFar (by omega)
      have isNew : name ∉ (stacked base predicates).map Predicate.name := by
        rw [names_stacked]
        exact new name List.mem_cons_self
      have compiled := redirects.lower (lowers_of_ok lowered)
      have roomLater : (stacked base predicates).length ≤ maxCount := by
        rw [length_stacked]
        omega
      have later := induction ruleRoom
      rw [stacked_append] at later
      exact (compile_statements_define isNew compiled roomLater).trans later
  | @rule predicates before effect written line condition rest rules lowered room compiles
      induction =>
      have shorter := compiles.take.1
      have redirects := redirects_stacked (compiles.apart distinct).1 (by omega)
      have compiled := redirects.lower (lowers_of_ok lowered)
      rw [List.length_cons] at ruleRoom
      have later := induction (by omega)
      have roomLater : order + before + 1 ≤ maxCount := by omega
      have numbered : (UInt32.ofNat (before + 1)).toNat = before + 1 :=
        UInt32.toNat_ofNat_of_lt' (by omega)
      rw [List.map_cons, List.map_cons, Rule.beneath, numbered, line_beneath,
        Nat.add_comm (before + 1), ← Nat.add_assoc]
      exact compile_statements_rule compiled roomLater later

end Compiling

namespace Table

variable {upper lower : Table} {facts : Facts} {rule : Rule} {lines : Nat}

theorem RoomFor.fits (room : upper.RoomFor lower) :
    upper.predicates.length + lower.predicates.length ≤ UInt32.size := room.predicates

theorem first_match_atop (soundUpper : upper.WellFormed) (soundLower : lower.WellFormed)
    (room : upper.RoomFor lower) :
    (upper.atop lines lower).firstMatch facts =
      (upper.firstMatch facts).or ((lower.firstMatch facts).map
        (Rule.beneath upper.predicates.length upper.rules.length lines)) := by
  rw [first_match_eq_find, first_match_eq_find, first_match_eq_find]
  simp only [atop]
  rw [List.find?_append, List.find?_map]
  congr 1
  · apply List.find?_congr
    intro rule inside
    apply Condition.holds_congr
    intro index reference
    exact meaning_of_front (soundUpper.known rule inside index reference)
  · congr 1
    apply List.find?_congr
    intro rule inside
    apply Condition.holds_redirected
    intro index reference
    have before := soundLower.known rule inside index reference
    have fits := room.fits
    rw [toNat_behind (by omega)]
    exact meaning_of_behind soundLower.backward fits before

theorem predicate_names_atop :
    (upper.atop lines lower).predicateNames = upper.predicateNames ++ lower.predicateNames := by
  rw [predicateNames, atop, names_stacked, List.map_append]
  rfl

theorem describe_upper (sound : upper.WellFormed) (inside : rule ∈ upper.rules) :
    (upper.atop lines lower).describe rule.condition = upper.describe rule.condition := by
  rw [describe, describe, predicate_names_atop]
  apply Condition.render_congr
  intro index reference
  have present : index.toNat < upper.predicateNames.length := by
    rw [predicateNames, List.length_map]
    exact sound.known rule inside index reference
  rw [Condition.renderReference, Condition.renderReference, List.getElem?_append_left present]

theorem describe_lower (sound : lower.WellFormed) (room : upper.RoomFor lower)
    (inside : rule ∈ lower.rules) :
    (upper.atop lines lower).describe
        (rule.beneath upper.predicates.length upper.rules.length lines).condition =
      lower.describe rule.condition := by
  rw [describe, describe, predicate_names_atop]
  apply Condition.render_redirected
  intro index reference
  have before := sound.known rule inside index reference
  have fits := room.fits
  have present : lower.predicateNames[index.toNat]? = some lower.predicates[index.toNat].name := by
    rw [predicateNames, List.getElem?_map, List.getElem?_eq_getElem before, Option.map_some]
  have length : upper.predicateNames.length = upper.predicates.length := by
    rw [predicateNames, List.length_map]
  rw [Condition.renderReference, Condition.renderReference, toNat_behind (by omega), ← length,
    List.getElem?_append_right (Nat.le_add_left _ _), Nat.add_sub_cancel, present]

structure Composes (lines : Nat) (upper lower table : Table) : Prop where
  predicates : table.predicates = upper.predicates ++
    lower.predicates.map (Predicate.redirected (behind upper.predicates.length))
  /-- No position of a predicate is too great to be counted on. -/
  places : ∀ predicate ∈ lower.predicates, ∀ index ∈ predicate.condition.references,
    (behind upper.predicates.length index).toNat = index.toNat + upper.predicates.length
  /-- What a rule of the upper text decides is decided by it as it was without the lower text. -/
  decided : ∀ facts rule, upper.firstMatch facts = some rule →
    table.firstMatch facts = some rule ∧
      table.describe rule.condition = upper.describe rule.condition ∧
        table.decide facts = upper.decide facts
  rest : ∀ facts rule, upper.firstMatch facts = none → lower.firstMatch facts = some rule →
    ∃ moved, table.firstMatch facts = some moved ∧
      moved.order.toNat = rule.order.toNat + upper.rules.length ∧
        moved.line.toNat = min (rule.line.toNat + lines) (2 ^ 32 - 1) ∧
          moved.effect = rule.effect ∧
            table.describe moved.condition = lower.describe rule.condition
  neither : ∀ facts, upper.firstMatch facts = none → lower.firstMatch facts = none →
    table.firstMatch facts = none

theorem mem_rules_of_first_match {table : Table} (found : table.firstMatch facts = some rule) :
    rule ∈ table.rules := by
  rw [first_match_eq_find] at found
  exact List.mem_of_find?_eq_some found

theorem composes_atop (soundUpper : upper.WellFormed) (soundLower : lower.WellFormed)
    (orders : ∀ rule ∈ lower.rules, rule.order.toNat ≤ lower.rules.length)
    (room : upper.RoomFor lower) : Composes lines upper lower (upper.atop lines lower) := by
  have fits := room.fits
  refine ⟨rfl, ?_, ?_, ?_, ?_⟩
  · intro predicate inside index reference
    obtain ⟨position, present⟩ := List.mem_iff_getElem?.mp inside
    have before := soundLower.backward position predicate present index reference
    have below := (List.getElem?_eq_some_iff.mp present).1
    exact toNat_behind (by omega)
  · intro facts rule found
    have first : (upper.atop lines lower).firstMatch facts = some rule := by
      rw [first_match_atop soundUpper soundLower room, found, Option.some_or]
    have shown : (upper.atop lines lower).describe rule.condition = upper.describe rule.condition :=
      describe_upper soundUpper (mem_rules_of_first_match found)
    refine ⟨first, shown, ?_⟩
    rw [decide, decide, first, found]
    dsimp only
    rw [decisionOf, decisionOf, shown]
  · intro facts rule absent found
    have inside := mem_rules_of_first_match found
    have numbered := orders rule inside
    have few := room.rules
    have size : UInt32.size = 2 ^ 32 := rfl
    refine ⟨rule.beneath upper.predicates.length upper.rules.length lines, ?_, ?_, ?_, rfl, ?_⟩
    · rw [first_match_atop soundUpper soundLower room, absent, found, Option.none_or,
        Option.map_some]
    · exact UInt32.toNat_ofNat_of_lt' (by omega)
    · exact UInt32.toNat_ofNat_of_lt' (by rw [maxCount]; omega)
    · exact describe_lower soundLower room inside
  · intro facts absentUpper absentLower
    rw [first_match_atop soundUpper soundLower room, absentUpper, absentLower]
    rfl

section Texts

variable {version first second : String}

/-- What is known of the document that a table was compiled from. -/
theorem origin_of_compile (compiled : compile version first = .ok upper) :
    ∃ document, Document.parse first = .ok document ∧ upper.schemaVersion = version ∧
      Compiles upper.predicates [] 0 document.statements upper.rules ∧
        upper.predicateNames = Document.definedBy document.statements := by
  obtain ⟨document, parsed, built⟩ := document_of_compile compiled
  exact ⟨document, parsed, schema_version_of_document built, compiles built, (compiles built).names⟩

theorem order_le_of_compile (compiled : compile version first = .ok upper) :
    ∀ rule ∈ upper.rules, rule.order.toNat ≤ upper.rules.length := by
  obtain ⟨document, -, -, compiles, -⟩ := origin_of_compile compiled
  intro rule inside
  have place : rule.order.toNat ∈ upper.rules.map fun rule => rule.order.toNat :=
    List.mem_map_of_mem inside
  rw [compiles.orders, List.mem_range'_1] at place
  omega

variable (compiledAbove : compile version first = .ok upper)
  (compiledBelow : compile version second = .ok lower)

include compiledAbove compiledBelow

/-- The document of two texts that define different names. -/
theorem joined_of_compile (apart : ∀ name ∈ upper.predicateNames, name ∉ lower.predicateNames) :
    ∃ above below : List Statement, Compiles upper.predicates [] 0 above upper.rules ∧
      Compiles lower.predicates [] 0 below lower.rules ∧
        Document.parse (first ++ "\n" ++ second) =
          .ok ⟨above ++ below.map (Statement.lowered (feedsAbove first))⟩ := by
  obtain ⟨above, parsedAbove, -, compilesAbove, namesAbove⟩ := origin_of_compile compiledAbove
  obtain ⟨below, parsedBelow, -, compilesBelow, namesBelow⟩ := origin_of_compile compiledBelow
  refine ⟨above.statements, below.statements, compilesAbove, compilesBelow, ?_⟩
  apply Document.parse_joined parsedAbove parsedBelow
  intro name inside known
  rw [← namesAbove] at known
  rw [← namesBelow] at inside
  exact apart name known inside

theorem compile_atop (apart : ∀ name ∈ upper.predicateNames, name ∉ lower.predicateNames)
    (room : upper.RoomFor lower) :
    compile version (first ++ "\n" ++ second) = .ok (upper.atop (feedsAbove first) lower) := by
  obtain ⟨above, below, compilesAbove, compilesBelow, parsed⟩ :=
    joined_of_compile compiledAbove compiledBelow apart
  obtain ⟨-, -, rfl, -⟩ := origin_of_compile compiledAbove
  have distinct : ((upper.predicates ++ lower.predicates).map Predicate.name).Nodup := by
    rw [List.map_append, List.nodup_append]
    refine ⟨compilesAbove.nodup List.nodup_nil, compilesBelow.nodup List.nodup_nil, ?_⟩
    intro name inside other known same
    rw [same] at inside
    exact apart other inside known
  have few := room.rules
  have numbered : upper.rules.length + 0 + lower.rules.length ≤ maxCount := by
    rw [maxCount, show UInt32.size = 2 ^ 32 from rfl]
    omega
  have continues := compilesBelow.beneath (feedsAbove first) distinct room.fits numbered
  rw [stacked_nil, Nat.add_comm] at continues
  rw [compile, parsed]
  dsimp only
  rw [ofDocument, compilesAbove.followed continues]
  rfl

/-- What has a table has no more predicates and rules than can be numbered. -/
theorem room_for_of_compile {table : Table}
    (apart : ∀ name ∈ upper.predicateNames, name ∉ lower.predicateNames)
    (compiled : compile version (first ++ "\n" ++ second) = .ok table) : upper.RoomFor lower := by
  obtain ⟨above, below, compilesAbove, compilesBelow, parsed⟩ :=
    joined_of_compile compiledAbove compiledBelow apart
  obtain ⟨document, same, -, compiles, -⟩ := origin_of_compile compiled
  cases parsed.symm.trans same
  have predicates : table.predicates.length =
      upper.predicates.length + lower.predicates.length := by
    rw [compiles.predicates_length, compilesAbove.predicates_length,
      compilesBelow.predicates_length, Document.defined_by_append, Document.defined_by_lowered,
      List.length_append]
  have rules : table.rules.length = upper.rules.length + lower.rules.length := by
    rw [compiles.rules_length, compilesAbove.rules_length, compilesBelow.rules_length,
      List.filterMap_append, List.length_append, rules_length_lowered]
  have predicateBound : table.predicates.length ≤ 2 ^ 32 := compiles.length_le (Nat.zero_le _)
  have ruleBound : 0 + table.rules.length ≤ 2 ^ 32 - 1 := compiles.rules_length_le (Nat.zero_le _)
  exact ⟨by omega, by omega⟩

theorem compile_without_room
    (apart : ∀ name ∈ upper.predicateNames, name ∉ lower.predicateNames)
    (full : ¬ upper.RoomFor lower) :
    ∃ fault, compile version (first ++ "\n" ++ second) = .error (.compile fault) := by
  obtain ⟨above, below, -, -, parsed⟩ := joined_of_compile compiledAbove compiledBelow apart
  cases built : ofDocument version ⟨above ++ below.map (Statement.lowered (feedsAbove first))⟩ with
  | error fault =>
      refine ⟨fault, ?_⟩
      rw [compile, parsed]
      dsimp only
      rw [built]
  | ok table =>
      have compiled : compile version (first ++ "\n" ++ second) = .ok table := by
        rw [compile, parsed]
        dsimp only
        rw [built]
      exact absurd (room_for_of_compile compiledAbove compiledBelow apart compiled) full

theorem compile_clash (clash : ∃ name ∈ upper.predicateNames, name ∈ lower.predicateNames) :
    ∃ position, ∃ name ∈ upper.predicateNames, name ∈ lower.predicateNames ∧
      compile version (first ++ "\n" ++ second) =
        .error (.source ⟨position, .alreadyDefined name⟩) := by
  obtain ⟨above, parsedAbove, -, -, namesAbove⟩ := origin_of_compile compiledAbove
  obtain ⟨below, parsedBelow, -, -, namesBelow⟩ := origin_of_compile compiledBelow
  rw [namesAbove, namesBelow] at clash ⊢
  obtain ⟨name, known, inside⟩ := clash
  obtain ⟨position, again, inside, known, refused⟩ :=
    Document.parse_clash parsedAbove parsedBelow ⟨name, inside, known⟩
  refine ⟨position, again, known, inside, ?_⟩
  rw [compile, refused]

end Texts

/-- Two rule texts that define different predicates can be put one below the other, as long as the
predicates and rules of both can be numbered. The upper rules decide as they did, whatever comes
below; where none of them holds, the lower ones decide as they did, and only their numbers and lines
are counted on. A name that both define is an error. -/
theorem compile_composes {version first second : String} {upper lower : Table}
    (compiledAbove : compile version first = .ok upper)
    (compiledBelow : compile version second = .ok lower) :
    ((∀ name ∈ upper.predicateNames, name ∉ lower.predicateNames) →
      (upper.RoomFor lower → ∃ table, compile version (first ++ "\n" ++ second) = .ok table ∧
        Composes (1 + first.toList.count '\n') upper lower table) ∧
      (¬ upper.RoomFor lower →
        ∃ fault, compile version (first ++ "\n" ++ second) = .error (.compile fault))) ∧
    ((∃ name ∈ upper.predicateNames, name ∈ lower.predicateNames) →
      ∃ position, ∃ name ∈ upper.predicateNames, name ∈ lower.predicateNames ∧
        compile version (first ++ "\n" ++ second) =
          .error (.source ⟨position, .alreadyDefined name⟩)) := by
  refine ⟨fun apart => ⟨fun room => ?_, ?_⟩, ?_⟩
  · refine ⟨_, compile_atop compiledAbove compiledBelow apart room, ?_⟩
    exact composes_atop (well_formed_of_compile compiledAbove) (well_formed_of_compile compiledBelow)
      (order_le_of_compile compiledBelow) room
  · exact compile_without_room compiledAbove compiledBelow apart
  · exact compile_clash compiledAbove compiledBelow

def gateText : String := "DEFINE [staff] AS {ops} AND NOT {guest}\nDENY IF NOT [staff] # no line feed"

def gateTable : Table where
  schemaVersion := "1"
  predicates := [⟨"staff", .all [.tag "ops", .not (.tag "guest")]⟩]
  rules := [⟨.not (.predicate 0), .deny, 1, 2⟩]

def doorText : String :=
  "\nDEFINE [near] AS {north} OR {south}\nDEFINE [open] AS [near] AND {day}\nALLOW [open]"

def doorTable : Table where
  schemaVersion := "1"
  predicates := [⟨"near", .any [.tag "north", .tag "south"]⟩,
    ⟨"open", .all [.predicate 0, .tag "day"]⟩]
  rules := [⟨.predicate 1, .allow, 1, 4⟩]

theorem gate_on_top_of_door :
    compile "1" gateText = .ok gateTable ∧ compile "1" doorText = .ok doorTable ∧
      (∃ table, compile "1" (gateText ++ "\n" ++ doorText) = .ok table ∧
        Composes 2 gateTable doorTable table) ∧
      ∃ position, compile "1" (gateText ++ "\n" ++ gateText) =
        .error (.source ⟨position, .alreadyDefined "staff"⟩) := by
  have gate : compile "1" gateText = .ok gateTable := by decide +kernel
  have door : compile "1" doorText = .ok doorTable := by decide +kernel
  obtain ⟨together, -⟩ := compile_composes gate door
  obtain ⟨-, twice⟩ := compile_composes gate gate
  obtain ⟨composed, -⟩ := together (by decide)
  obtain ⟨position, name, inside, -, refused⟩ := twice ⟨"staff", by decide, by decide⟩
  cases List.mem_singleton.mp inside
  exact ⟨gate, door, composed ⟨by decide, by decide⟩, position, refused⟩

end Table

end TagPolicy
