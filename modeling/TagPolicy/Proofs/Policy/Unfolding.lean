import TagPolicy.Proofs.Policy.Folding
import TagPolicy.Proofs.Policy.Remembering
import TagPolicy.Proofs.Policy.Soundness

/-!
Plain evaluation of a table. The value of a predicate is that of its body, where a reference to an
earlier predicate has the value of that predicate and any other reference is false. A pass with its
recording comes to these values for every table, whether its references were checked or not, and so
does a condition in which every reference has been replaced by the body it stands for.
-/

namespace TagPolicy

variable {predicates : List Predicate} {facts : Facts}

/-- The value of a predicate; there is none past the list, which counts as false. -/
def plainValue (predicates : List Predicate) (facts : Facts) (index : Nat) : Bool :=
  match predicates[index]? with
  | none => false
  | some predicate =>
      predicate.condition.holds facts fun other =>
        if _earlier : other < index then plainValue predicates facts other else false
termination_by index

theorem plain_value_eq_meaning_of (index : Nat) :
    plainValue predicates facts index = meaningOf predicates facts index := by
  induction index using Nat.strongRecOn with
  | ind index induction =>
      rw [plainValue]
      cases present : predicates[index]? with
      | none => exact (meaning_of_of_length_le (List.getElem?_eq_none_iff.mp present)).symm
      | some predicate =>
          rw [meaning_of_eq present]
          dsimp only
          congr 1
          funext other
          by_cases earlier : other < index
          · simp [earlier, induction other earlier]
          · simp [earlier]

theorem meaning_of_eq_plain_value : meaningOf predicates facts = plainValue predicates facts :=
  funext fun index => (plain_value_eq_meaning_of index).symm

namespace Condition

mutual

/-- The condition with every reference replaced by a condition for it. -/
def resolve (body : Nat → Condition) : Condition → Condition
  | all members => all (resolveMembers body members)
  | any members => any (resolveMembers body members)
  | not operand => not (operand.resolve body)
  | predicate index => body index.toNat
  | leaf => leaf

def resolveMembers (body : Nat → Condition) : List Condition → List Condition
  | [] => []
  | member :: members => member.resolve body :: resolveMembers body members

end

theorem resolve_members_eq_map (body : Nat → Condition) (members : List Condition) :
    resolveMembers body members = members.map (resolve body) := by
  induction members with
  | nil => rfl
  | cons member members induction => rw [resolveMembers, induction, List.map_cons]

theorem holds_resolve (body : Nat → Condition) (meaning : Nat → Bool) (condition : Condition) :
    (condition.resolve body).holds facts meaning =
      condition.holds facts fun index => (body index).holds facts meaning := by
  induction condition using induct with
  | all members each =>
      rw [resolve, resolve_members_eq_map]
      exact Connective.conjunction.holds_map _ each
  | any members each =>
      rw [resolve, resolve_members_eq_map]
      exact Connective.disjunction.holds_map _ each
  | not operand induction => rw [resolve, holds, holds, induction]
  | tag name => rfl
  | attr name comparison value => rfl
  | const value => rfl
  | predicate index => rfl

theorem references_resolve {body : Nat → Condition} (closed : ∀ index, (body index).references = [])
    (condition : Condition) : (condition.resolve body).references = [] := by
  have ofMembers : ∀ members : List Condition,
      (∀ member ∈ members, (member.resolve body).references = []) →
        referencesOfMembers (resolveMembers body members) = [] := by
    intro members each
    induction members with
    | nil => rfl
    | cons member members induction =>
        obtain ⟨first, later⟩ := List.forall_mem_cons.mp each
        rw [resolveMembers, referencesOfMembers, first, induction later, List.append_nil]
  induction condition using induct with
  | all members each => exact ofMembers members each
  | any members each => exact ofMembers members each
  | not operand induction => exact induction
  | tag name => rfl
  | attr name comparison value => rfl
  | const value => rfl
  | predicate index => exact closed index.toNat

theorem resolve_congr {body other : Nat → Condition} {condition : Condition}
    (agree : ∀ index ∈ condition.references, body index.toNat = other index.toNat) :
    condition.resolve body = condition.resolve other := by
  have ofMembers : ∀ members : List Condition,
      (∀ member ∈ members, member.resolve body = member.resolve other) →
        resolveMembers body members = resolveMembers other members := by
    intro members each
    induction members with
    | nil => rfl
    | cons member members induction =>
        obtain ⟨first, later⟩ := List.forall_mem_cons.mp each
        rw [resolveMembers, resolveMembers, first, induction later]
  induction condition using induct with
  | all members each =>
      rw [resolve, resolve, ofMembers members]
      intro member inside
      exact each member inside (forall_references_of_members agree member inside)
  | any members each =>
      rw [resolve, resolve, ofMembers members]
      intro member inside
      exact each member inside (forall_references_of_members agree member inside)
  | not operand induction => rw [resolve, resolve, induction agree]
  | tag name => rfl
  | attr name comparison value => rfl
  | const value => rfl
  | predicate index => exact agree index (by simp [references])

end Condition

/-- The body of a predicate with every reference to an earlier predicate replaced by what that one
unfolds to, and any other by `false`. -/
def unfolding (predicates : List Predicate) (index : Nat) : Condition :=
  match predicates[index]? with
  | none => .const false
  | some predicate =>
      predicate.condition.resolve fun other =>
        if _earlier : other < index then unfolding predicates other else .const false
termination_by index

theorem references_unfolding (index : Nat) : (unfolding predicates index).references = [] := by
  induction index using Nat.strongRecOn with
  | ind index induction =>
      rw [unfolding]
      cases predicates[index]? with
      | none => rfl
      | some predicate =>
          apply Condition.references_resolve
          intro other
          split
          · exact induction other ‹_›
          · rfl

/-- The value of a predicate is that of what it unfolds to, which needs no table. -/
theorem holds_alone_unfolding (index : Nat) :
    (unfolding predicates index).holdsAlone facts = plainValue predicates facts index := by
  induction index using Nat.strongRecOn with
  | ind index induction =>
      rw [unfolding, plainValue]
      cases predicates[index]? with
      | none => rfl
      | some predicate =>
          dsimp only
          rw [Condition.holdsAlone, Condition.holds_resolve]
          congr 1
          funext other
          split
          · exact induction other ‹_›
          · rfl

/-- A condition with all references unfolded has the value it has in the table. -/
theorem holds_alone_resolved (condition : Condition) :
    (condition.resolve (unfolding predicates)).holdsAlone facts =
      condition.holds facts (plainValue predicates facts) := by
  rw [Condition.holdsAlone, Condition.holds_resolve]
  congr 1
  funext index
  exact holds_alone_unfolding index

/-- Where references only point back, none of them is replaced by a default. -/
theorem Backward.unfolding_eq (backward : Backward predicates) {index : Nat} {predicate : Predicate}
    (present : predicates[index]? = some predicate) :
    unfolding predicates index = predicate.condition.resolve (unfolding predicates) := by
  rw [unfolding, present]
  apply Condition.resolve_congr
  intro other referred
  exact dif_pos (backward index predicate present other referred)

/-- A pass over the rules of a table, from its start to its outcome. -/
def Table.Matches (table : Table) (facts : Facts) (outcome : Option Rule)
    (final : Recording) : Prop :=
  Tries table.predicates facts table.rules .start outcome final

/-- Whatever a pass was asked before, it has begun no body twice, and it answers a condition as
`check` does, with the plain value of the condition. -/
theorem Reaches.answers {before : Recording} (reaches : Reaches predicates facts before) :
    before.begun.Nodup ∧ ∃ known, before = .idle known ∧ ∀ condition : Condition,
      let answer := condition.check predicates facts known
      answer.1 = condition.holds facts (plainValue predicates facts) ∧
        ∀ value after, Yields predicates facts (.condition condition) before value after ↔
          value = answer.1 ∧ after = .idle answer.2 := by
  obtain ⟨known, sound, rfl⟩ := reaches.idle
  refine ⟨List.nodup_range, known, rfl, ?_⟩
  intro condition answer
  have yields := @Condition.yields predicates facts condition known
  constructor
  · rw [← meaning_of_eq_plain_value]
    exact (condition.check_answers sound).value_eq
  · intro value after
    constructor
    · exact yields.unique
    · rintro ⟨rfl, rfl⟩
      exact yields

/-- A pass over any table ends, in one way only, and begins no body twice. Its outcome is the first
rule whose condition holds where every reference has its plain value. Every condition has its plain
value in the pass, whatever has been asked before it, and that is its value with all references
unfolded. Where references only point back, unfolding replaces each by the body it refers to. -/
theorem Table.first_match_plain (table : Table) (facts : Facts) :
    (∃ final, table.Matches facts (table.firstMatch facts) final ∧ final.begun.Nodup ∧
      ∀ outcome later, table.Matches facts outcome later →
        outcome = table.firstMatch facts ∧ later = final) ∧
    table.firstMatch facts =
      table.rules.find? (fun rule =>
        rule.condition.holds facts (plainValue table.predicates facts)) ∧
    (∀ before, Reaches table.predicates facts before →
      before.begun.Nodup ∧ ∃ known, before = .idle known ∧ ∀ condition : Condition,
        let answer := condition.check table.predicates facts known
        answer.1 = condition.holds facts (plainValue table.predicates facts) ∧
          ∀ value after, Yields table.predicates facts (.condition condition) before value after ↔
            value = answer.1 ∧ after = .idle answer.2) ∧
    (∀ condition : Condition,
      let unfolded := condition.resolve (unfolding table.predicates)
      unfolded.references = [] ∧
        unfolded.holdsAlone facts =
          condition.holds facts (plainValue table.predicates facts)) ∧
    (Backward table.predicates → ∀ index predicate, table.predicates[index]? = some predicate →
      unfolding table.predicates index =
        predicate.condition.resolve (unfolding table.predicates)) := by
  refine ⟨?_, ?_, ?_, ?_, ?_⟩
  · obtain ⟨final, tries⟩ := @tries_first_holding table.predicates facts table.rules #[]
    refine ⟨.idle final, tries, List.nodup_range, ?_⟩
    intro outcome later matched
    exact tries.unique matched
  · rw [first_match_eq_find, meaning_of_eq_plain_value]
  · intro before reaches
    exact reaches.answers
  · intro condition unfolded
    exact ⟨Condition.references_resolve references_unfolding condition,
      holds_alone_resolved condition⟩
  · intro backward index predicate present
    exact backward.unfolding_eq present

/-- A table whose predicates refer to themselves, forwards and back, and whose first rule refers to
no predicate. -/
def looseTable : Table where
  schemaVersion := ""
  predicates :=
    [⟨"unlike itself", .not (.predicate 0)⟩,
      ⟨"ahead", .any [.predicate 2, .tag "guest"]⟩,
      ⟨"back", .all [.predicate 0, .not (.predicate 1)]⟩]
  rules :=
    [⟨.predicate 9, .deny, 1, 1⟩, ⟨.predicate 1, .deny, 2, 2⟩, ⟨.predicate 2, .allow, 3, 3⟩]

def chainedTable : Table where
  schemaVersion := ""
  predicates := [⟨"guest", .tag "guest"⟩, ⟨"member", .not (.predicate 0)⟩]
  rules := [⟨.predicate 1, .allow, 1, 1⟩]

theorem loose_and_chained_tables_matched :
    let facts : Facts := ⟨.empty, .empty⟩
    (∃ final, looseTable.Matches facts (some ⟨.predicate 2, .allow, 3, 3⟩) final ∧
      final.begun.Nodup) ∧
    (∀ value after,
      Yields looseTable.predicates facts (.condition (.predicate 1)) .start value after →
        value = plainValue looseTable.predicates facts 1) ∧
    Backward chainedTable.predicates ∧
    unfolding chainedTable.predicates 1 = .not (.tag "guest") := by
  intro facts
  obtain ⟨⟨final, matched, once, -⟩, -, answered, -⟩ := looseTable.first_match_plain facts
  obtain ⟨-, -, -, -, unfolds⟩ := chainedTable.first_match_plain facts
  have backward : Backward chainedTable.predicates :=
    (Table.first_bad_reference_eq_none.mp (by decide)).1
  have third : looseTable.firstMatch facts = some ⟨.predicate 2, .allow, 3, 3⟩ := by
    decide +kernel
  rw [third] at matched
  refine ⟨⟨final, matched, once⟩, ?_, backward, ?_⟩
  · intro value after yields
    obtain ⟨-, known, started, answers⟩ := answered .start .start
    obtain ⟨plain, only⟩ := answers (.predicate 1)
    rw [((only value after).mp yields).1, plain]
    rfl
  · rw [unfolds backward 1 _ rfl, Condition.resolve, Condition.resolve]
    exact congrArg Condition.not (unfolds backward 0 _ rfl)

end TagPolicy
