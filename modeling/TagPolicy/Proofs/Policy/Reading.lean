import TagPolicy.Authority.Basic
import TagPolicy.Proofs.Policy.Compilation
import TagPolicy.Proofs.Policy.Pass

/-!
Documents read directly, and what compilation makes of them. `Document.Reads` gives every expression
the truth value that its text says, with a reference standing for the body that is defined under its
name. Nothing in it knows of positions, of folding or of what is remembered during a pass. The main
statement is that the compiled table decides every request as the first rule that reads true, and
that nothing decides where no rule does.
-/

namespace TagPolicy

namespace Language

namespace Document

/-- The truth value that an expression of a document has under some facts. -/
inductive Reads (document : Document) (facts : Facts) : Expr → Bool → Prop
  | and {left right : Expr} {first second : Bool} :
      Reads document facts left first → Reads document facts right second →
        Reads document facts (.and left right) (first && second)
  | or {left right : Expr} {first second : Bool} :
      Reads document facts left first → Reads document facts right second →
        Reads document facts (.or left right) (first || second)
  | not {operand : Expr} {value : Bool} :
      Reads document facts operand value → Reads document facts (.not operand) (!value)
  | tag (name : String) : Reads document facts (.tag name) (facts.tags.contains name)
  /-- A missing attribute equals nothing, and values of different types differ. -/
  | equal (name : String) (value : Value) :
      Reads document facts (.attr name .equal value)
        (decide (facts.attributes.get? name = some value))
  | unequal (name : String) (value : Value) :
      Reads document facts (.attr name .unequal value)
        (decide (facts.attributes.get? name ≠ some value))
  | literal (value : Bool) : Reads document facts (.literal value) value
  /-- A name stands for the body that is defined under it. -/
  | reference {name : String} {body : Expr} {line : Nat} {value : Bool} :
      .define name body line ∈ document.statements → Reads document facts body value →
        Reads document facts (.reference name) value

/-- The rule at a position, counted from zero, is the first that reads true. -/
def Decides (document : Document) (facts : Facts) (position : Nat) : Prop :=
  (∃ rule, document.rules[position]? = some rule ∧
      document.Reads facts rule.condition true) ∧
    ∀ earlier < position, ∀ rule, document.rules[earlier]? = some rule →
      document.Reads facts rule.condition false

/-- No rule reads true. -/
def DecidesNothing (document : Document) (facts : Facts) : Prop :=
  ∀ rule ∈ document.rules, document.Reads facts rule.condition false

end Document

end Language

open TagPolicy.Language (Document Expr Statement WrittenRule)
open Outcome (bind_eq_ok pure_eq_ok)

section Compiled

variable {document : Document} {final : List Predicate} {rules : List Rule} {facts : Facts}

/-- A predicate of a compiled list means what its body says about the predicates themselves. -/
theorem Compiles.meaning (compiles : Compiles final [] 0 document.statements rules)
    {position : Nat} {predicate : Predicate} (present : final[position]? = some predicate) :
    meaningOf final facts position =
      predicate.condition.holds facts (meaningOf final facts) := by
  rw [meaning_of_eq present]
  apply Condition.holds_congr
  intro index inside
  have below := compiles.backward position predicate present index inside
  rw [decide_eq_true below, Bool.true_and]

/-- What a reference was resolved to holds exactly when the body of its predicate does. -/
theorem Compiles.holds_resolved (compiles : Compiles final [] 0 document.statements rules)
    (facts : Facts)
    {known : Nat} {name : String} {condition : Condition}
    (resolved : resolve (final.take known) name = .ok condition) :
    ∃ (position : Nat) (predicate : Predicate), position < known ∧
      final[position]? = some predicate ∧ predicate.name = name ∧
        condition.holds facts (meaningOf final facts) =
          predicate.condition.holds facts (meaningOf final facts) := by
  obtain ⟨position, predicate, present, same, rfl⟩ := of_resolve resolved
  have inside := (List.getElem?_eq_some_iff.mp present).1
  rw [List.length_take] at inside
  rw [List.getElem?_take_of_lt (by omega)] at present
  refine ⟨position, predicate, by omega, present, same, ?_⟩
  split
  · rfl
  · have room := compiles.length_le (by decide)
    rw [Condition.holds, UInt32.toNat_ofNat_of_lt' (by omega), compiles.meaning present]

/-- Two predicates of one name are one predicate. -/
theorem Compiles.name_unique (compiles : Compiles final [] 0 document.statements rules)
    {first second : Nat} {left right : Predicate} (leftPresent : final[first]? = some left)
    (rightPresent : final[second]? = some right) (same : left.name = right.name) :
    first = second := by
  have distinct := compiles.nodup List.nodup_nil
  have inside := (List.getElem?_eq_some_iff.mp leftPresent).1
  refine (List.getElem?_inj (by simpa using inside) distinct).mp ?_
  rw [List.getElem?_map, List.getElem?_map, leftPresent, rightPresent, Option.map_some,
    Option.map_some, same]

/-- A condition holds where the expression it was compiled from reads true, and only there. The
induction is on the reading, since a reference leads to a body that is no part of the expression. -/
theorem Compiles.value_of_reads (compiles : Compiles final [] 0 document.statements rules)
    {expr : Expr} {value : Bool} (reads : document.Reads facts expr value) {known : Nat}
    {condition : Condition} (lowered : lower (final.take known) expr = .ok condition) :
    condition.holds facts (meaningOf final facts) = value := by
  induction reads generalizing known condition with
  | and _ _ leftValue rightValue =>
      obtain ⟨first, leftLowered, lowered⟩ := bind_eq_ok.mp lowered
      obtain ⟨second, rightLowered, lowered⟩ := bind_eq_ok.mp lowered
      cases pure_eq_ok.mp lowered
      rw [← leftValue leftLowered, ← rightValue rightLowered]
      exact Connective.conjunction.holds_join
  | or _ _ leftValue rightValue =>
      obtain ⟨first, leftLowered, lowered⟩ := bind_eq_ok.mp lowered
      obtain ⟨second, rightLowered, lowered⟩ := bind_eq_ok.mp lowered
      cases pure_eq_ok.mp lowered
      rw [← leftValue leftLowered, ← rightValue rightLowered]
      exact Connective.disjunction.holds_join
  | not _ operandValue =>
      obtain ⟨operand, operandLowered, lowered⟩ := bind_eq_ok.mp lowered
      cases pure_eq_ok.mp lowered
      rw [Condition.holds_negation, operandValue operandLowered]
  | tag name =>
      cases pure_eq_ok.mp lowered
      rfl
  | equal name value =>
      cases pure_eq_ok.mp lowered
      rfl
  | unequal name value =>
      cases pure_eq_ok.mp lowered
      rfl
  | literal value =>
      cases pure_eq_ok.mp lowered
      rfl
  | @reference name body line value defined _ bodyValue =>
      obtain ⟨position, predicate, -, present, same, holds⟩ := compiles.holds_resolved facts lowered
      obtain ⟨place, condition, placed, bodyLowered⟩ := compiles.place defined
      have here := compiles.name_unique present placed same
      subst here
      rw [placed] at present
      cases present
      rw [holds, bodyValue bodyLowered]

/-- Every expression that was compiled has a reading. The outer induction is on the number of
predicates it was compiled against, and a reference goes to one of those. -/
theorem Compiles.exists_reads (compiles : Compiles final [] 0 document.statements rules)
    (facts : Facts)
    {known : Nat} {expr : Expr} {condition : Condition}
    (lowered : lower (final.take known) expr = .ok condition) :
    ∃ value, document.Reads facts expr value := by
  induction known using Nat.strongRecOn generalizing expr condition with
  | ind known earlier =>
      induction expr generalizing condition with
      | and left right leftReads rightReads =>
          obtain ⟨first, leftLowered, lowered⟩ := bind_eq_ok.mp lowered
          obtain ⟨second, rightLowered, -⟩ := bind_eq_ok.mp lowered
          obtain ⟨leftValue, leftReads⟩ := leftReads leftLowered
          obtain ⟨rightValue, rightReads⟩ := rightReads rightLowered
          exact ⟨_, .and leftReads rightReads⟩
      | or left right leftReads rightReads =>
          obtain ⟨first, leftLowered, lowered⟩ := bind_eq_ok.mp lowered
          obtain ⟨second, rightLowered, -⟩ := bind_eq_ok.mp lowered
          obtain ⟨leftValue, leftReads⟩ := leftReads leftLowered
          obtain ⟨rightValue, rightReads⟩ := rightReads rightLowered
          exact ⟨_, .or leftReads rightReads⟩
      | not operand operandReads =>
          obtain ⟨first, operandLowered, -⟩ := bind_eq_ok.mp lowered
          obtain ⟨value, reads⟩ := operandReads operandLowered
          exact ⟨_, .not reads⟩
      | tag name => exact ⟨_, .tag name⟩
      | attr name comparison value =>
          cases comparison with
          | equal => exact ⟨_, .equal name value⟩
          | unequal => exact ⟨_, .unequal name value⟩
      | literal value => exact ⟨_, .literal value⟩
      | reference name =>
          obtain ⟨position, predicate, below, present, same, -⟩ :=
            compiles.holds_resolved facts lowered
          obtain ⟨body, line, defined, bodyLowered⟩ := compiles.origin present (Nat.zero_le _)
          rw [same] at defined
          obtain ⟨value, reads⟩ := earlier position below bodyLowered
          exact ⟨value, .reference defined reads⟩

/-- A compiled expression reads as its condition holds. -/
theorem Compiles.reads_iff (compiles : Compiles final [] 0 document.statements rules)
    {known : Nat} {expr : Expr} {condition : Condition}
    (lowered : lower (final.take known) expr = .ok condition) (value : Bool) :
    document.Reads facts expr value ↔
      condition.holds facts (meaningOf final facts) = value := by
  constructor
  · intro reads
    exact compiles.value_of_reads reads lowered
  · intro holds
    obtain ⟨other, reads⟩ := compiles.exists_reads facts lowered
    rw [compiles.value_of_reads reads lowered] at holds
    rw [← holds]
    exact reads

/-- The rule at a position of the table and the written rule it comes from. -/
theorem Compiles.rule_reads (compiles : Compiles final [] 0 document.statements rules)
    {position : Nat} {written : WrittenRule}
    (present : document.rules[position]? = some written) :
    ∃ rule, rules[position]? = some rule ∧ rule.effect = written.effect ∧
      rule.order.toNat = position + 1 ∧ rule.line.toNat = min written.line maxCount ∧
        ∀ (facts : Facts) (value : Bool), document.Reads facts written.condition value ↔
          rule.condition.holds facts (meaningOf final facts) = value := by
  obtain ⟨known, -, condition, lowered, bound, place⟩ := compiles.rule_at present
  have size : maxCount < UInt32.size := by decide
  refine ⟨_, place, rfl, ?_, ?_, fun facts value => compiles.reads_iff lowered value⟩
  · rw [UInt32.toNat_ofNat_of_lt' (by omega)]
    omega
  · exact UInt32.toNat_ofNat_of_lt' (by omega)

theorem Compiles.rule_of_getElem? (compiles : Compiles final [] 0 document.statements rules)
    {position : Nat} {rule : Rule} (present : rules[position]? = some rule) :
    ∃ written, document.rules[position]? = some written := by
  have inside := (List.getElem?_eq_some_iff.mp present).1
  rw [compiles.rules_length] at inside
  exact ⟨_, List.getElem?_eq_getElem inside⟩

/-- The first rule that holds is the one that decides. -/
theorem Compiles.find_iff (compiles : Compiles final [] 0 document.statements rules)
    (facts : Facts) {position : Nat} {rule : Rule} (present : rules[position]? = some rule) :
    rules.find? (fun rule => rule.condition.holds facts (meaningOf final facts)) = some rule ↔
      document.Decides facts position := by
  rw [List.find?_eq_some_iff_getElem]
  constructor
  · rintro ⟨holds, place, inside, here, before⟩
    obtain ⟨written, source⟩ := compiles.rule_of_getElem? (List.getElem?_eq_getElem inside)
    obtain ⟨found, foundPresent, -, order, -⟩ := compiles.rule_reads source
    rw [List.getElem?_eq_getElem inside, here] at foundPresent
    cases foundPresent
    obtain ⟨other, otherSource⟩ := compiles.rule_of_getElem? present
    obtain ⟨same, samePresent, -, otherOrder, -, reads⟩ := compiles.rule_reads otherSource
    rw [present] at samePresent
    cases samePresent
    have places : place = position := by omega
    subst places
    refine ⟨⟨other, otherSource, (reads facts true).mpr holds⟩, ?_⟩
    intro earlier below written source
    obtain ⟨rule, rulePresent, -, -, -, reads⟩ := compiles.rule_reads source
    have absent := before earlier below
    rw [List.getElem?_eq_getElem (by omega)] at rulePresent
    cases rulePresent
    exact (reads facts false).mpr (by simpa using absent)
  · rintro ⟨⟨written, source, readsTrue⟩, before⟩
    obtain ⟨found, foundPresent, -, -, -, reads⟩ := compiles.rule_reads source
    rw [present] at foundPresent
    cases foundPresent
    obtain ⟨inside, here⟩ := List.getElem?_eq_some_iff.mp present
    refine ⟨(reads facts true).mp readsTrue, position, inside, here, ?_⟩
    intro earlier below
    have earlierPresent := List.getElem?_eq_getElem (show earlier < rules.length by omega)
    obtain ⟨written, source⟩ := compiles.rule_of_getElem? earlierPresent
    obtain ⟨rule, rulePresent, -, -, -, reads⟩ := compiles.rule_reads source
    rw [earlierPresent] at rulePresent
    cases rulePresent
    simpa using (reads facts false).mp (before earlier below written source)

theorem Compiles.find_none_iff (compiles : Compiles final [] 0 document.statements rules)
    (facts : Facts) :
    rules.find? (fun rule => rule.condition.holds facts (meaningOf final facts)) = none ↔
      document.DecidesNothing facts := by
  rw [List.find?_eq_none]
  constructor
  · intro none written inside
    obtain ⟨position, present⟩ := List.mem_iff_getElem?.mp inside
    obtain ⟨rule, place, -, -, -, reads⟩ := compiles.rule_reads present
    exact (reads facts false).mpr (by simpa using none rule (List.mem_of_getElem? place))
  · intro nothing rule inside
    obtain ⟨position, present⟩ := List.mem_iff_getElem?.mp inside
    obtain ⟨written, source⟩ := compiles.rule_of_getElem? present
    obtain ⟨found, place, -, -, -, reads⟩ := compiles.rule_reads source
    rw [present] at place
    cases place
    simpa using (reads facts false).mp (nothing written (List.mem_of_getElem? source))

end Compiled

theorem mem_tags_of_request {subject target : Context} {action : Action} {tag : String} :
    tag ∈ (Facts.ofRequest subject target action).tags ↔
      tag ∈ subject.effective ∨ tag ∈ target.effective ∨ tag ∈ Automatic.actionTags action := by
  rw [Facts.ofRequest, OrderedSet.mem_insert_many, OrderedSet.mem_union, or_comm, or_assoc]

/-- What rules see of a request is what its three sides have, and nothing else. -/
theorem facts_eq_of_request {subject target : Context} {action : Action} {facts : Facts}
    (tags : ∀ tag, tag ∈ facts.tags ↔
      tag ∈ subject.effective ∨ tag ∈ target.effective ∨ tag ∈ Automatic.actionTags action)
    (attributes : facts.attributes = target.attributes) :
    Facts.ofRequest subject target action = facts := by
  obtain ⟨seen, known⟩ := facts
  cases attributes
  have same : (Facts.ofRequest subject target action).tags = seen := by
    apply OrderedSet.ext
    intro tag
    rw [tags tag, mem_tags_of_request]
  rw [← same]
  rfl

/-- A compiled table decides as its document reads. Every rule has exactly one reading; the rule at a
position of the table is the first match exactly when the written rule at that position is the first
that reads true, and it carries that rule's effect, number and line; nothing matches exactly when no
rule reads true. A request is decided in this way on the tags of its subject, its target and its
operation and on the attributes of its target: the answer has the effect of the written rule and the
number of its entry, and it is a denial without a rule where no rule reads true. -/
theorem Table.decides_as_read {version : String} {document : Document} {table : Table}
    (built : Table.ofDocument version document = .ok table) :
    (∀ facts : Facts,
      (∀ written ∈ document.rules, ∃ value, ∀ other,
        document.Reads facts written.condition other ↔ other = value) ∧
      (∀ (position : Nat) (written : WrittenRule), document.rules[position]? = some written →
        ∃ rule, table.rules[position]? = some rule ∧ rule.effect = written.effect ∧
          rule.order.toNat = position + 1 ∧ rule.line.toNat = min written.line (UInt32.size - 1) ∧
            (table.firstMatch facts = some rule ↔ document.Decides facts position)) ∧
      (table.firstMatch facts = none ↔ document.DecidesNothing facts)) ∧
    ∀ (authority : Authority) (subject target : Context) (action : Action) (facts : Facts)
        (decision : Decision),
      authority.table = table →
      (authority.authorize subject target action).1 = decision →
      (∀ tag, tag ∈ facts.tags ↔
        tag ∈ subject.effective ∨ tag ∈ target.effective ∨ tag ∈ Automatic.actionTags action) →
      facts.attributes = target.attributes →
        (∀ position, document.Decides facts position → ∃ written rule,
          document.rules[position]? = some written ∧ table.rules[position]? = some rule ∧
            decision.effect = written.effect ∧ decision.rule = some rule.order ∧
              rule.order.toNat = position + 1 ∧
                decision.reason = .ruleMatch rule.line (table.describe rule.condition) ∧
                  (decision.isAllowed = true ↔ written.effect = .allow)) ∧
        (document.DecidesNothing facts →
          decision.effect = .deny ∧ decision.rule = none ∧ decision.reason = .noMatch ∧
            decision.isAllowed = false) := by
  have compiles := Table.compiles built
  constructor
  · intro facts
    rw [table.first_match_eq_find]
    refine ⟨?_, ?_, compiles.find_none_iff facts⟩
    · intro written inside
      obtain ⟨position, present⟩ := List.mem_iff_getElem?.mp inside
      obtain ⟨rule, -, -, -, -, reads⟩ := compiles.rule_reads present
      refine ⟨rule.condition.holds facts (meaningOf table.predicates facts), fun other => ?_⟩
      rw [reads, eq_comm]
    · intro position written present
      obtain ⟨rule, place, effect, order, line, -⟩ := compiles.rule_reads present
      exact ⟨rule, place, effect, order, line, compiles.find_iff facts place⟩
  · rintro authority subject target action facts decision rfl asked tags attributes
    have decided : decision = authority.table.decide facts := by
      rw [← asked, ← facts_eq_of_request tags attributes]
      rfl
    constructor
    · intro position decides
      obtain ⟨⟨written, present, -⟩, -⟩ := id decides
      obtain ⟨rule, place, effect, order, -⟩ := compiles.rule_reads present
      have found := (compiles.find_iff facts place).mpr decides
      rw [← Table.first_match_eq_find] at found
      rw [decided, Table.decide_of_some found]
      refine ⟨written, rule, present, place, effect, rfl, order, rfl, ?_⟩
      rw [Decision.is_allowed_iff, ← effect]
      rfl
    · intro nothing
      have found := (compiles.find_none_iff facts).mpr nothing
      rw [← Table.first_match_eq_find] at found
      rw [decided, Table.decide_of_none found]
      exact ⟨rfl, rfl, rfl, rfl⟩

/-- A document in which a name stands for a name, and a rule for what folding leaves of it. -/
def aliasDocument : Document :=
  ⟨[.define "a" (.tag "x") 1, .define "b" (.reference "a") 2,
    .define "c" (.and (.reference "b") (.or (.attr "h" .unequal (.integer 3)) (.tag "y"))) 3,
    .rule .deny (.and (.literal true) (.not (.not (.reference "c")))) 4,
    .rule .allow (.reference "b") 4294967300]⟩

def aliasTable : Table :=
  ⟨"1", [⟨"a", .tag "x"⟩, ⟨"b", .tag "x"⟩,
      ⟨"c", .all [.tag "x", .any [.attr "h" .unequal (.integer 3), .tag "y"]]⟩],
    [⟨.predicate 2, .deny, 1, 4⟩, ⟨.tag "x", .allow, 2, 4294967295⟩]⟩

def aliasAuthority : Authority := ⟨.standard, ⟨aliasTable⟩, .empty, .zero⟩

def markedContext : Context := Context.empty.grant "x"

def numberedContext : Context :=
  { Context.empty with attributes := OrderedMap.empty.insert "h" (.integer 3) }

/-- A denial by the first rule where the attribute is missing, an answer by the second where it has
the value, and a denial by no rule without the tag. -/
theorem aliases_decide_as_read :
    Table.ofDocument "1" aliasDocument = .ok aliasTable ∧
      (aliasDocument.Decides (Facts.ofRequest markedContext .empty ⟨"Edit"⟩) 0 ∧
        (aliasAuthority.authorize markedContext .empty ⟨"Edit"⟩).1.rule = some 1 ∧
          (aliasAuthority.authorize markedContext .empty ⟨"Edit"⟩).1.isAllowed = false) ∧
      (aliasDocument.Decides (Facts.ofRequest markedContext numberedContext ⟨"Edit"⟩) 1 ∧
        (aliasAuthority.authorize markedContext numberedContext ⟨"Edit"⟩).1.rule = some 2 ∧
          (aliasAuthority.authorize markedContext numberedContext ⟨"Edit"⟩).1.isAllowed = true) ∧
      (aliasDocument.DecidesNothing (Facts.ofRequest .empty numberedContext ⟨"Edit"⟩) ∧
        (aliasAuthority.authorize .empty numberedContext ⟨"Edit"⟩).1.rule = none ∧
          (aliasAuthority.authorize .empty numberedContext ⟨"Edit"⟩).1.isAllowed = false) := by
  have built : Table.ofDocument "1" aliasDocument = .ok aliasTable := rfl
  have matched (subject target : Context) :=
    (Table.decides_as_read built).1 (Facts.ofRequest subject target ⟨"Edit"⟩)
  have answered (subject target : Context) :=
    (Table.decides_as_read built).2 aliasAuthority subject target ⟨"Edit"⟩ _ _ rfl rfl
      (fun _ => mem_tags_of_request) rfl
  refine ⟨built, ?_, ?_, ?_⟩
  · obtain ⟨_, place, -, -, -, decides⟩ := (matched markedContext .empty).2.1 0 _ rfl
    cases place
    have first := decides.mp (by decide +kernel)
    obtain ⟨_, _, source, place, -, number, -, -, allowed⟩ :=
      (answered markedContext .empty).1 0 first
    cases source
    cases place
    exact ⟨first, number, by simpa using allowed⟩
  · obtain ⟨_, place, -, -, -, decides⟩ := (matched markedContext numberedContext).2.1 1 _ rfl
    cases place
    have second := decides.mp (by decide +kernel)
    obtain ⟨_, _, source, place, -, number, -, -, allowed⟩ :=
      (answered markedContext numberedContext).1 1 second
    cases source
    cases place
    exact ⟨second, number, by simpa using allowed⟩
  · have nothing := (matched .empty numberedContext).2.2.mp (by decide +kernel)
    obtain ⟨-, unnumbered, -, denied⟩ := (answered .empty numberedContext).2 nothing
    exact ⟨nothing, unnumbered, denied⟩

end TagPolicy
