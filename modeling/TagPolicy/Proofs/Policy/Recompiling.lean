import TagPolicy.Proofs.Language.Scanning
import TagPolicy.Proofs.Policy.Composition
import TagPolicy.Proofs.Policy.Showing

/-!
A table that is shown compiles to itself. Its predicates and rules, each on a line of its own as
they are shown, are read as a document whose statements are those of the table; only the lines of the
rules are those of the new text. The names of the predicates stand between their brackets as they
are, because they were found there.
-/

namespace TagPolicy

open TagPolicy.Language (Apart Bracket Document Expr InScope IsGap Lexeme Scans Statement Token
  apart_of_head isWordChar maxDepth scans_nil)
open Language.Grammar (Derives IsDocument IsStatement)
open Condition (Normal Plain referenceName)
open Outcome (bind_eq_ok)

/-- The definition of a predicate as a table shows it, at no line in particular. -/
def Predicate.statement (names : List String) (predicate : Predicate) : Statement :=
  .define predicate.name (predicate.condition.expr names) 0

def Rule.statement (names : List String) (rule : Rule) : Statement :=
  .rule rule.effect (rule.condition.expr names) 0

def Rule.unlined (rule : Rule) : Rule := { rule with line := 0 }

namespace Table

def statements (table : Table) : List Statement :=
  table.predicates.map (Predicate.statement table.predicateNames) ++
    table.rules.map (Rule.statement table.predicateNames)

def lines (table : Table) : List String :=
  table.predicates.map (fun predicate =>
    "DEFINE [" ++ predicate.name ++ "] AS " ++ table.describe predicate.condition) ++
  table.rules.map fun rule => rule.effect.render ++ " " ++ table.describe rule.condition

def written (table : Table) : String := "\n".intercalate table.lines

end Table

section References

variable {final known : List Predicate} {condition : Condition} {index : UInt32}

theorem Condition.Plain.shared {shared : UInt32 → Prop} (plain : Plain shared condition) :
    ∀ index ∈ condition.references, shared index := by
  induction plain with
  | all _ _ _ induction => exact forall_references_of_connective induction
  | any _ _ _ induction => exact forall_references_of_connective induction
  | not _ _ induction => exact induction
  | predicate shared => simpa [references] using shared
  | _ => simp [references]

theorem Condition.Normal.shared {shared : UInt32 → Prop} (normal : condition.Normal shared) :
    ∀ index ∈ condition.references, shared index := by
  cases normal with
  | const => simp [references]
  | plain plain => exact plain.shared

theorem reference_name_eq {predicate : Predicate} (present : final[index.toNat]? = some predicate) :
    referenceName (final.map Predicate.name) index = predicate.name := by
  rw [referenceName, List.getElem?_map, present]
  rfl

/-- A reference that is shown by its name is resolved to itself, wherever the predicate is known. -/
theorem resolve_reference_name (distinct : (final.map Predicate.name).Nodup)
    (front : known <+: final) (shared : Shared final index) (before : index.toNat < known.length) :
    resolve known (referenceName (final.map Predicate.name) index) = .ok (.predicate index) := by
  obtain ⟨predicate, present, compound⟩ := shared
  obtain ⟨more, rfl⟩ := front
  have here := present
  rw [List.getElem?_append_left before] at here
  rw [List.map_append] at distinct
  have found := lookup_from_of_distinct 0 (List.nodup_append.mp distinct).1 here
  rw [reference_name_eq present, resolve, found, Nat.zero_add]
  dsimp only
  rw [Condition.is_compound_iff.mp compound, UInt32.ofNat_toNat]
  rfl

end References

section Compiling

variable {final predicates known : List Predicate} {before : Nat} {names defined : List String}
  {statements others : List Statement} {rules : List Rule}

/-- The definitions of predicates compile to them, one after the other. -/
theorem compile_definitions {added : List Predicate} (split : known ++ added = final)
    (distinct : (final.map Predicate.name).Nodup) (room : final.length ≤ UInt32.size)
    (lowers : ∀ front predicate back, front ++ predicate :: back = final →
      lower front (predicate.condition.expr names) = .ok predicate.condition) :
    compileStatements known before (added.map (Predicate.statement names) ++ statements) =
      compileStatements final before statements := by
  induction added generalizing known with
  | nil =>
      rw [List.append_nil] at split
      rw [split]
      rfl
  | cons predicate added induction =>
      have fresh : predicate.name ∉ known.map Predicate.name := by
        rw [← split, List.map_append, List.nodup_append] at distinct
        exact fun inside => distinct.2.2 _ inside _ List.mem_cons_self rfl
      have roomHere : known.length ≤ maxCount := by
        have length := congrArg List.length split
        have small : maxCount + 1 = UInt32.size := rfl
        rw [List.length_append, List.length_cons] at length
        omega
      rw [List.map_cons, List.cons_append]
      apply (compile_statements_define fresh (lowers known predicate added split) roomHere).trans
      apply induction
      rw [List.append_assoc]
      exact split

theorem compile_rules (lowers : ∀ rule ∈ rules,
      lower final (rule.condition.expr names) = .ok rule.condition)
    (orders : rules.map (fun rule => rule.order.toNat) = List.range' (before + 1) rules.length)
    (room : before + rules.length ≤ maxCount) :
    compileStatements final before (rules.map (Rule.statement names)) =
      .ok (final, rules.map Rule.unlined) := by
  induction rules generalizing before with
  | nil => rfl
  | cons rule rules induction =>
      obtain ⟨first, later⟩ := List.forall_mem_cons.mp lowers
      rw [List.length_cons] at room
      rw [List.map_cons, List.length_cons, List.range'_succ] at orders
      obtain ⟨order, orders⟩ := List.cons.inj orders
      have continues := induction later orders (by omega)
      have same : rule.unlined = ⟨rule.condition, rule.effect, UInt32.ofNat (before + 1),
          UInt32.ofNat (min 0 maxCount)⟩ := by
        rw [← order, UInt32.ofNat_toNat]
        rfl
      rw [List.map_cons, List.map_cons, same]
      exact compile_statements_rule first (by omega) continues

/-- The lines of statements do not matter but for the lines of the rules. -/
theorem Compiles.relined (compiles : Compiles final predicates before statements rules)
    (same : others.map (Statement.atLine 0) = statements.map (Statement.atLine 0)) :
    ∃ again, compileStatements predicates before others = .ok (final, again) ∧
      again.map Rule.unlined = rules.map Rule.unlined := by
  induction compiles generalizing others with
  | nil =>
      cases List.map_eq_nil_iff.mp same
      exact ⟨[], rfl, rfl⟩
  | define fresh lowered room _ induction =>
      obtain ⟨other, others, rfl, sameFirst, sameLater⟩ := List.map_eq_cons_iff.mp same
      obtain ⟨again, compiled, unlined⟩ := induction sameLater
      cases other with
      | rule => cases sameFirst
      | define =>
          cases sameFirst
          exact ⟨again, (compile_statements_define fresh lowered room).trans compiled, unlined⟩
  | rule lowered room _ induction =>
      obtain ⟨other, others, rfl, sameFirst, sameLater⟩ := List.map_eq_cons_iff.mp same
      obtain ⟨again, compiled, unlined⟩ := induction sameLater
      cases other with
      | define => cases sameFirst
      | rule =>
          cases sameFirst
          refine ⟨_, compile_statements_rule lowered room compiled, ?_⟩
          rw [List.map_cons, List.map_cons, unlined]
          rfl

theorem resolved_of_lower {expr : Expr} {condition : Condition}
    (lowered : lower predicates expr = .ok condition) :
    expr.Resolved (predicates.map Predicate.name) := by
  replace lowered := lowers_of_ok lowered
  induction lowered with
  | and _ _ left right => exact List.forall_mem_append.mpr ⟨left, right⟩
  | or _ _ left right => exact List.forall_mem_append.mpr ⟨left, right⟩
  | not _ operand => exact operand
  | copied present named | referred present named =>
      intro name inside
      cases List.mem_singleton.mp inside
      rw [← named]
      exact List.mem_map_of_mem (List.mem_of_getElem? present)
  | _ =>
      intro name inside
      cases inside

/-- What compiles defines its names once and before it uses them. -/
theorem Compiles.in_scope (compiles : Compiles final predicates before statements rules)
    (known : ∀ name, name ∈ defined ↔ name ∈ predicates.map Predicate.name) :
    InScope defined statements := by
  induction compiles generalizing defined with
  | nil => trivial
  | @define predicates before name body line condition rest rules fresh lowered _ _ induction =>
      refine ⟨?_, ?_, induction (known_after name condition known)⟩
      · intro other same inside
        cases same
        exact fresh ((known name).mp inside)
      · exact fun other inside => (known other).mpr (resolved_of_lower lowered other inside)
  | rule lowered _ _ induction =>
      refine ⟨?_, ?_, induction known⟩
      · intro other same
        cases same
      · exact fun other inside => (known other).mpr (resolved_of_lower lowered other inside)

end Compiling

section Texts

variable {names : List String} {text : List Char} {lines : List String}
  {statements : List Statement}

def Writes (line : String) (statement : Statement) : Prop :=
  Scans line.toList fun tokens => ∃ number, IsStatement maxDepth tokens (statement.atLine number)

theorem writes_definition {predicate : Predicate} (holds : Bracket.square.Holds predicate.name)
    (scans : Scans (predicate.condition.render names).toList fun tokens =>
      Derives .disjunction maxDepth tokens (predicate.condition.expr names)) :
    Writes ("DEFINE [" ++ predicate.name ++ "] AS " ++ predicate.condition.render names)
      (predicate.statement names) := by
  have split : ("DEFINE [" ++ predicate.name ++ "] AS " ++ predicate.condition.render names).toList =
      (Lexeme.word "DEFINE").written ++ ' ' :: ((Lexeme.bracketed predicate.name).written ++
        ' ' :: ((Lexeme.word "AS").written ++ ' ' ::
          (predicate.condition.render names).toList)) := by
    simp [Lexeme.written, Bracket.opening, Bracket.closing]
  rw [Writes, split]
  apply Scans.behind_spaced (Language.writable_word (by decide))
  apply Scans.behind_spaced (.bracketed holds)
  apply Scans.behind_spaced (Language.writable_word (by decide))
  apply scans.imp
  exact fun tokens derived _ _ position =>
    ⟨position.line, .define (.word (by decide)) (.word (by decide)) derived⟩

theorem writes_rule {rule : Rule}
    (scans : Scans (rule.condition.render names).toList fun tokens =>
      Derives .disjunction maxDepth tokens (rule.condition.expr names)) :
    Writes (rule.effect.render ++ " " ++ rule.condition.render names) (rule.statement names) := by
  have split : (rule.effect.render ++ " " ++ rule.condition.render names).toList =
      rule.effect.lexeme.written ++ ' ' :: (rule.condition.render names).toList := by
    simp [Lexeme.written, Effect.lexeme]
  rw [Writes, split]
  apply Scans.behind_spaced (Language.writable_effect _)
  apply scans.imp
  exact fun tokens derived position =>
    ⟨position.line, .rule (Language.is_keyword_effect rule.effect) derived⟩

def WritesAll (statements : List Statement) (tokens : List Token) : Prop :=
  ∃ others, IsDocument maxDepth tokens others ∧
    others.map (Statement.atLine 0) = statements.map (Statement.atLine 0)

theorem writes_all_cons {statement : Statement} {front tokens : List Token}
    (first : ∃ number, IsStatement maxDepth front (statement.atLine number))
    (later : WritesAll statements tokens) : WritesAll (statement :: statements) (front ++ tokens) := by
  obtain ⟨number, derived⟩ := first
  obtain ⟨others, document, same⟩ := later
  refine ⟨statement.atLine number :: others, .cons derived document, ?_⟩
  rw [List.map_cons, List.map_cons, same]
  cases statement <;> rfl

theorem apart_feeds (front : List Char) :
    Apart front (lines.flatMap fun line => "\n".toList ++ line.toList) := by
  apply apart_of_head
  cases lines <;> simp [isWordChar]

theorem scans_feeds (each : List.Forall₂ Writes lines statements) :
    Scans (lines.flatMap fun line => "\n".toList ++ line.toList) (WritesAll statements) := by
  induction each with
  | nil => exact scans_nil ⟨[], .nil, rfl⟩
  | @cons line statement lines statements writes _ induction =>
      rw [List.flatMap_cons, List.append_assoc]
      apply Scans.behind_blank (by decide)
      apply writes.followed (apart_feeds _)
      exact induction.imp fun tokens later front first => writes_all_cons first later

theorem scans_lines (each : List.Forall₂ Writes lines statements) :
    Scans ("\n".intercalate lines).toList (WritesAll statements) := by
  cases each with
  | nil => exact scans_nil ⟨[], .nil, rfl⟩
  | cons writes each =>
      rw [Language.toList_intercalate]
      apply writes.followed (apart_feeds _)
      exact (scans_feeds each).imp fun tokens later front first => writes_all_cons first later

end Texts

/-- Names that statements define are tokens of a document. -/
theorem Language.Grammar.IsDocument.bracketed {nesting : Nat} {tokens : List Token}
    {statements : List Statement} (document : IsDocument nesting tokens statements) :
    ∀ name ∈ Document.definedBy statements, ∃ position, ⟨.bracketed name, position⟩ ∈ tokens := by
  induction document with
  | nil => simp [Document.definedBy]
  | @cons front tokens statement statements first _ induction =>
      rw [Document.defined_by_cons]
      refine List.forall_mem_append.mpr ⟨?_, fun name inside => ?_⟩
      · cases first with
        | @define word as name position => exact List.forall_mem_singleton.mpr ⟨position, by simp⟩
        | rule | ruleIf => simp [Statement.defined?]
      · obtain ⟨position, later⟩ := induction name inside
        exact ⟨position, List.mem_append_right _ later⟩

namespace Table

variable {table : Table}

/-- What is known of a compiled table, and enough to compile it again. -/
structure Compiled (table : Table) : Prop where
  distinct : table.predicateNames.Nodup
  bracketed : ∀ name ∈ table.predicateNames, Bracket.square.Holds name
  room : table.predicates.length ≤ UInt32.size
  few : table.rules.length ≤ maxCount
  normal : ∀ condition ∈ table.conditions, condition.Normal (Shared table.predicates)
  backward : Backward table.predicates
  known : ∀ rule ∈ table.rules, ∀ index ∈ rule.condition.references,
    index.toNat < table.predicates.length
  orders : table.rules.map (fun rule => rule.order.toNat) = List.range' 1 table.rules.length

theorem forall_conditions {good : Condition → Prop} :
    (∀ condition ∈ table.conditions, good condition) ↔
      (∀ predicate ∈ table.predicates, good predicate.condition) ∧
        ∀ rule ∈ table.rules, good rule.condition := by
  rw [conditions, List.forall_mem_append, List.forall_mem_map, List.forall_mem_map]

theorem Reduces.normal {document : Document} (reduces : table.Reduces document) :
    ∀ condition ∈ table.conditions, condition.Normal (Shared table.predicates) := by
  have predicates := reduces.predicates.flip.imp fun predicate _ reduced =>
    And.intro reduced.condition.normal True.intro
  have rules := reduces.rules.flip.imp fun rule _ reduced =>
    And.intro reduced.condition.normal True.intro
  exact forall_conditions.mpr ⟨((List.forall₂_and_left _ _).mp predicates).1,
    ((List.forall₂_and_left _ _).mp rules).1⟩

theorem compiled_of_compile {version text : String} (compiled : compile version text = .ok table) :
    table.Compiled := by
  obtain ⟨document, parsed, built⟩ := document_of_compile compiled
  obtain ⟨tokens, scanned, derived, -⟩ := Document.of_parse parsed
  have compiles := Table.compiles built
  have few := compiles.rules_length_le (Nat.zero_le _)
  rw [Nat.zero_add] at few
  constructor
  · exact compiles.nodup List.nodup_nil
  · intro name inside
    rw [predicateNames, compiles.names, List.map_nil, List.nil_append] at inside
    obtain ⟨position, token⟩ := derived.bracketed name inside
    exact Language.holds_of_stands (Language.stands_of_tokenize scanned _ token)
  · exact compiles.length_le (Nat.zero_le _)
  · exact few
  · exact (reduces_of_document built).normal
  · exact compiles.backward
  · exact compiles.references_bounded
  · exact compiles.orders

/-- What a table is shown as compiles to the table, without the lines. -/
theorem Compiled.compile_statements (sound : table.Compiled) :
    compileStatements [] 0 table.statements =
      .ok (table.predicates, table.rules.map Rule.unlined) := by
  obtain ⟨predicates, rules⟩ := forall_conditions.mp sound.normal
  rw [statements, compile_definitions (List.nil_append _) sound.distinct sound.room]
  · apply compile_rules
    · intro rule inside
      apply (rules rule inside).lower_expr
      intro index reference
      exact resolve_reference_name sound.distinct (List.prefix_refl _)
        ((rules rule inside).shared index reference) (sound.known rule inside index reference)
    · exact sound.orders
    · rw [Nat.zero_add]
      exact sound.few
  · intro front predicate back split
    have present : table.predicates[front.length]? = some predicate := by
      rw [← split, List.getElem?_append_right (Nat.le_refl _), Nat.sub_self, List.getElem?_cons_zero]
    have normal := predicates predicate (List.mem_of_getElem? present)
    apply normal.lower_expr
    intro index reference
    exact resolve_reference_name sound.distinct ⟨_, split⟩ (normal.shared index reference)
      (sound.backward _ predicate present index reference)

theorem Compiled.named (sound : table.Compiled) : ∀ condition ∈ table.conditions,
    ∀ index ∈ condition.references,
      Bracket.square.Holds (referenceName table.predicateNames index) := by
  intro condition inside index reference
  obtain ⟨predicate, present, -⟩ := (sound.normal condition inside).shared index reference
  rw [predicateNames, reference_name_eq present]
  exact sound.bracketed _ (List.mem_map_of_mem (List.mem_of_getElem? present))

/-- The lines of a table write its statements. -/
theorem Compiled.writes (sound : table.Compiled)
    (legible : ∀ condition ∈ table.conditions, condition.Legible)
    (cheap : ∀ condition ∈ table.conditions, condition.cost ≤ maxDepth) :
    List.Forall₂ Writes table.lines table.statements := by
  have scans : ∀ condition ∈ table.conditions, Scans (table.describe condition).toList fun tokens =>
      Derives .disjunction maxDepth tokens (condition.expr table.predicateNames) := by
    intro condition inside
    have unary := (sound.normal condition inside).scans (legible condition inside)
      (sound.named condition inside) (Nat.le_succ_of_le (cheap condition inside))
    exact unary.imp fun tokens derived => derived.conjunction.disjunction
  obtain ⟨predicates, rules⟩ := forall_conditions.mp scans
  apply List.rel_append
  · rw [List.forall₂_map_left_iff, List.forall₂_map_right_iff, List.forall₂_same]
    intro predicate inside
    exact writes_definition (sound.bracketed _ (List.mem_map_of_mem inside))
      (predicates predicate inside)
  · rw [List.forall₂_map_left_iff, List.forall₂_map_right_iff, List.forall₂_same]
    exact fun rule inside => writes_rule (rules rule inside)

theorem Compiled.shallow (sound : table.Compiled)
    (cheap : ∀ condition ∈ table.conditions, condition.cost ≤ maxDepth) :
    ∀ statement ∈ table.statements, statement.expr.depth ≤ maxDepth := by
  have depth : ∀ condition ∈ table.conditions,
      (condition.expr table.predicateNames).depth ≤ maxDepth := fun condition inside =>
    Nat.le_trans (sound.normal condition inside).depth_expr (cheap condition inside)
  obtain ⟨predicates, rules⟩ := forall_conditions.mp depth
  rw [statements, List.forall_mem_append, List.forall_mem_map, List.forall_mem_map]
  exact ⟨predicates, rules⟩

/-- A document with the statements of a table, whatever their lines, is read and compiles to the
table but for the lines of its rules. -/
theorem Compiled.reads (sound : table.Compiled) {tokens : List Token}
    (cheap : ∀ condition ∈ table.conditions, condition.cost ≤ maxDepth)
    (writes : WritesAll table.statements tokens) (finish : Text.Position) (version : String) :
    ∃ document again, Document.ofTokens finish tokens = .ok document ∧
      ofDocument version document = .ok again ∧ again.predicates = table.predicates ∧
        again.rules.map Rule.unlined = table.rules.map Rule.unlined := by
  obtain ⟨others, derived, same⟩ := writes
  have compiles := compiles_of_ok sound.compile_statements
  obtain ⟨rules, compiled, unlined⟩ := compiles.relined same
  have inScope : InScope [] others := (compiles_of_ok compiled).in_scope fun _ => Iff.rfl
  have shallow : ∀ statement ∈ others, statement.expr.depth ≤ maxDepth := by
    intro statement inside
    have lined := List.mem_map_of_mem (f := Statement.atLine 0) inside
    rw [same] at lined
    obtain ⟨shown, among, equal⟩ := List.mem_map.mp lined
    rw [← Language.Statement.expr_at_line 0, ← equal, Language.Statement.expr_at_line]
    exact sound.shallow cheap shown among
  have read : Language.readStatements finish tokens.length [] tokens = .ok others :=
    Language.read_statements_of_document derived inScope shallow (Nat.le_refl _)
  refine ⟨⟨others⟩, ⟨version, table.predicates, rules⟩, ?_, ?_, rfl, ?_⟩
  · exact bind_eq_ok.mpr ⟨others, read, rfl⟩
  · exact bind_eq_ok.mpr ⟨_, compiled, rfl⟩
  · rw [unlined, List.map_map]
    rfl

/-- A compiled table whose names and texts can stand in a rule text, and whose conditions are not
shown too deep, compiles to itself from its own text, but for the lines of its rules. -/
theorem recompiles {version text ending : String} (compiled : compile version text = .ok table)
    (legible : ∀ condition ∈ table.conditions, condition.Legible)
    (cheap : ∀ condition ∈ table.conditions, condition.cost ≤ 128)
    (last : ending = "" ∨ ending = "\n") :
    ∃ again, compile version (table.written ++ ending) = .ok again ∧
      again.schemaVersion = table.schemaVersion ∧ again.predicates = table.predicates ∧
        again.rules.map Rule.unlined = table.rules.map Rule.unlined := by
  have sound := compiled_of_compile compiled
  have gap : IsGap ending.toList := by
    rcases last with rfl | rfl
    · exact .nil
    · exact .blank (by decide) .nil
  obtain ⟨tokens, writes, scanned⟩ := (scans_lines (sound.writes legible cheap)).tokenize gap
  have whole : String.ofList (table.written.toList ++ ending.toList) = table.written ++ ending := by
    rw [String.ofList_append, String.ofList_toList, String.ofList_toList]
  rw [← written, whole] at scanned
  obtain ⟨document, again, read, built, same⟩ :=
    sound.reads cheap writes (.finish (table.written ++ ending)) version
  have parsed : Document.parse (table.written ++ ending) = .ok document :=
    bind_eq_ok.mpr ⟨tokens, scanned, read⟩
  have versions : again.schemaVersion = table.schemaVersion := by
    rw [schema_version_of_document built, (compiles_of_compile compiled).1]
  refine ⟨again, ?_, versions, same⟩
  rw [compile, parsed]
  dsimp only
  rw [built]

def aliasedText : String :=
  "DEFINE [near me] AS \x7bnorth wing\x7d OR NOT (attr(floor) == -5 AND tag(\"a\"))\n" ++
    "DEFINE [alias] AS [near me]\n" ++
    "DENY [alias] AND (attr(note) != \"say \\\"é\\\\\" AND NOT NOT [alias])\n" ++
    "# the rest\nALLOW NOT FALSE"

def aliasedTable : Table where
  schemaVersion := "1"
  predicates := [
    ⟨"near me", .any [.tag "north wing",
      .not (.all [.attr "floor" .equal (.integer (-5)), .tag "a"])]⟩,
    ⟨"alias", .predicate 0⟩]
  rules := [
    ⟨.all [.predicate 0, .attr "note" .unequal (.text "say \"é\\"), .predicate 0], .deny, 1, 3⟩,
    ⟨.const true, .allow, 2, 5⟩]

theorem aliased_table_recompiles :
    compile "1" aliasedText = .ok aliasedTable ∧
      aliasedTable.written =
        "DEFINE [near me] AS (\x7bnorth wing\x7d OR NOT (attr(floor) == -5 AND \x7ba\x7d))\n" ++
        "DEFINE [alias] AS [near me]\n" ++
        "DENY ([near me] AND attr(note) != \"say \\\"é\\\\\" AND [near me])\nALLOW TRUE" ∧
      ∃ again, compile "1" (aliasedTable.written ++ "\n") = .ok again ∧
        again.predicates = aliasedTable.predicates ∧
          again.rules.map Rule.unlined = aliasedTable.rules.map Rule.unlined := by
  have compiled : compile "1" aliasedText = .ok aliasedTable := by decide +kernel
  have holds : Bracket.curly.Holds "north wing" ∧ Bracket.curly.Holds "a" := by
    constructor <;> constructor <;> decide
  have word : ∀ name : String, name.toList.all isWordChar = true →
      ∀ char ∈ name.toList, isWordChar char = true := fun _ => List.all_eq_true.mp
  have quoted : Value.Legible (.text "say \"é\\") := by
    have each : ("say \"é\\".toList.all fun char =>
        Text.escaped char == [char] || (char == '"' || char == '\\')) = true := by
      decide +kernel
    simpa only [Value.Legible, List.all_eq_true, Bool.or_eq_true, beq_iff_eq] using each
  have legible : ∀ condition ∈ aliasedTable.conditions, condition.Legible := by
    have near : Condition.Legible (.any [.tag "north wing",
        .not (.all [.attr "floor" .equal (.integer (-5)), .tag "a"])]) := by
      have inner : Condition.Legible (.all [.attr "floor" .equal (.integer (-5)), .tag "a"]) := by
        apply Condition.Legible.all
        simpa using ⟨.attr (by decide) (word _ (by decide)) trivial, .tag holds.2⟩
      apply Condition.Legible.any
      simpa using ⟨.tag holds.1, .not inner⟩
    have denied : Condition.Legible
        (.all [.predicate 0, .attr "note" .unequal (.text "say \"é\\"), .predicate 0]) := by
      apply Condition.Legible.all
      simpa using ⟨.predicate, .attr (by decide) (word _ (by decide)) quoted, .predicate⟩
    simpa [aliasedTable, conditions] using ⟨near, .predicate, denied, .const⟩
  have cheap : ∀ condition ∈ aliasedTable.conditions, condition.cost ≤ 128 := by
    decide
  obtain ⟨again, compiledAgain, -, same⟩ := recompiles compiled legible cheap (.inr rfl)
  exact ⟨compiled, by decide +kernel, again, compiledAgain, same⟩

end Table

end TagPolicy
