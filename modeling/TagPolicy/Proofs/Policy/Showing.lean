import Mathlib.Data.List.Basic
import TagPolicy.Proofs.Language.Passages

/-!
Conditions as they are shown, read as expressions. What is shown is a passage of the rule language
if the names and the texts in the condition can stand in it as they are. The expression that it
writes compiles to the condition again: a connective is shown as a chain in parentheses, its tree is
no deeper than its members and the logarithm of their number, and folding makes of it the members in
their order.
-/

namespace TagPolicy

open TagPolicy.Language (Bracket Chain Expr Lexeme Scans Token apart_before_sign isWordChar scans_nil)
open Language.Grammar (Derives)

/-- A value of which nothing but marks and backslashes is escaped where it is shown. -/
def Value.Legible : Value → Prop
  | text content =>
      ∀ char ∈ content.toList, Text.escaped char = [char] ∨ char = '"' ∨ char = '\\'
  | _ => True

namespace Language.Chain

def connective : Chain → Connective
  | conjunction => .conjunction
  | disjunction => .disjunction

/-- The tree of a chain of any length; without operands it is the constant that changes no chain. -/
def tree (chain : Chain) : List Expr → Expr
  | [] => .literal chain.connective.unit
  | first :: others => .balanced chain.join first others

end Language.Chain

namespace Condition

/-- Tags have names that stand between braces, attributes are named by words, and values are
legible. -/
inductive Legible : Condition → Prop
  | all {members : List Condition} : (∀ member ∈ members, Legible member) → Legible (.all members)
  | any {members : List Condition} : (∀ member ∈ members, Legible member) → Legible (.any members)
  | not {operand : Condition} : Legible operand → Legible (.not operand)
  | tag {name : String} : Bracket.curly.Holds name → Legible (.tag name)
  | attr {name : String} {comparison : Comparison} {value : Value} :
      name ≠ "" → (∀ char ∈ name.toList, isWordChar char = true) → value.Legible →
        Legible (.attr name comparison value)
  | const {value : Bool} : Legible (.const value)
  | predicate {index : UInt32} : Legible (.predicate index)

mutual

/-- The depth of the expression that the condition is shown as. -/
def cost : Condition → Nat
  | all members => Nat.clog 2 members.length + costOfMembers members
  | any members => Nat.clog 2 members.length + costOfMembers members
  | not operand => operand.cost + 1
  | _ => 1

def costOfMembers : List Condition → Nat
  | [] => 0
  | member :: members => max member.cost (costOfMembers members)

end

def referenceName (names : List String) (index : UInt32) : String :=
  names[index.toNat]?.getD s!"#{index.toNat}"

mutual

/-- The expression that the condition is shown as. -/
def expr (names : List String) : Condition → Expr
  | all members => Chain.conjunction.tree (exprs names members)
  | any members => Chain.disjunction.tree (exprs names members)
  | not operand => .not (operand.expr names)
  | tag name => .tag name
  | attr name comparison value => .attr name comparison value
  | const value => .literal value
  | predicate index => .reference (referenceName names index)

def exprs (names : List String) : List Condition → List Expr
  | [] => []
  | member :: members => member.expr names :: exprs names members

end

section Parts

variable {names : List String} {members : List Condition}

theorem exprs_eq_map : exprs names members = members.map (expr names) := by
  induction members with
  | nil => rfl
  | cons member members induction => rw [exprs, induction, List.map_cons]

theorem render_members_eq_map : renderMembers names members = members.map (render names) := by
  induction members with
  | nil => rfl
  | cons member members induction => rw [renderMembers, induction, List.map_cons]

theorem cost_le_cost_of_members : ∀ member ∈ members, member.cost ≤ costOfMembers members := by
  induction members with
  | nil => simp
  | cons head tail induction =>
      rw [List.forall_mem_cons, costOfMembers]
      refine ⟨Nat.le_max_left _ _, fun member inside => ?_⟩
      exact Nat.le_trans (induction member inside) (Nat.le_max_right _ _)

theorem Plain.cost_pos {shared : UInt32 → Prop} {condition : Condition}
    (plain : Plain shared condition) : 0 < condition.cost := by
  have halves : ∀ count, 2 ≤ count → 0 < Nat.clog 2 count := fun _ => Nat.clog_pos (by decide)
  cases plain with
  | all several => exact Nat.add_pos_left (halves _ several) _
  | any several => exact Nat.add_pos_left (halves _ several) _
  | not => exact Nat.succ_pos _
  | _ => exact Nat.one_pos

theorem render_reference_eq (index : UInt32) :
    renderReference names index = "[" ++ referenceName names index ++ "]" := by
  have opening : ∀ text : String, "[#" ++ text = "[" ++ ("#" ++ text) := by
    intro text
    rw [← String.append_assoc]
    rfl
  rw [renderReference, referenceName]
  cases names[index.toNat]? with
  | some name => rfl
  | none => exact congrArg (· ++ "]") (opening _)

end Parts

section Texts

variable {names : List String} {nesting : Nat}

theorem escaped_of_legible {char : Char}
    (legible : Text.escaped char = [char] ∨ char = '"' ∨ char = '\\') :
    Text.escaped char = Language.escaped char := by
  rcases legible with plain | rfl | rfl
  · have other : ¬(char = '"' ∨ char = '\\') := by
      rintro (rfl | rfl) <;> cases plain
    rw [plain, Language.escaped, if_neg other]
  · rfl
  · rfl

theorem toList_render_value {value : Value} (legible : value.Legible) :
    value.render.toList = value.lexeme.written := by
  cases value with
  | text content =>
      have same : content.toList.flatMap Text.escaped = content.toList.flatMap Language.escaped :=
        List.flatMap_congr fun char inside => escaped_of_legible (legible char inside)
      simp [Value.render, Text.quoted, Value.lexeme, Lexeme.written, same]
  | integer number => rfl
  | boolean flag => cases flag <;> rfl

theorem scans_value {value : Value} (legible : value.Legible) {kind : List Token → Prop}
    (each : ∀ position, kind [⟨value.lexeme, position⟩]) : Scans value.render.toList kind := by
  rw [toList_render_value legible]
  exact (Language.scans_lexeme (Language.writable_value value)).imp
    fun tokens ⟨position, same⟩ => same ▸ each position

theorem scans_tag {name : String} (holds : Bracket.curly.Holds name) :
    Scans (renderTag name).toList fun tokens => Derives .unary nesting tokens (.tag name) := by
  have split : (renderTag name).toList = (Lexeme.braced name).written ++ [] := by
    simp [renderTag, Lexeme.written, Bracket.opening, Bracket.closing]
  rw [split]
  apply Scans.behind_sign (.braced holds) (by simp)
  exact scans_nil fun position => .primary (.leaf .braced)

theorem scans_attr {name : String} {comparison : Comparison} {value : Value} (named : name ≠ "")
    (word : ∀ char ∈ name.toList, isWordChar char = true) (legible : value.Legible) :
    Scans (renderAttr name comparison value).toList fun tokens =>
      Derives .unary nesting tokens (.attr name comparison value) := by
  have split : (renderAttr name comparison value).toList =
      (Lexeme.word "attr").written ++ (Lexeme.openParen.written ++ ((Lexeme.word name).written ++
        (Lexeme.closeParen.written ++ ' ' :: (comparison.lexeme.written ++
          ' ' :: value.render.toList)))) := by
    cases comparison <;> simp [renderAttr, Lexeme.written, Comparison.lexeme, Comparison.render]
  rw [split]
  apply Scans.behind (Language.writable_word (by decide)) (apart_before_sign (by simp))
  apply Scans.behind_sign .openParen (by simp)
  apply Scans.behind (.word named word) (apart_before_sign (by simp))
  apply Scans.behind_spaced .closeParen
  apply Scans.behind_spaced (Language.writable_comparison comparison)
  apply scans_value legible
  intro operand operator closing inner opening function
  exact .primary (.leaf (.attr (.word (by decide)) (.word named)
    (Language.is_comparison_lexeme comparison) (Language.is_value_lexeme value)))

theorem scans_const (value : Bool) :
    Scans (renderConst value).toList fun tokens => Derives .unary nesting tokens (.literal value) := by
  cases value with
  | true =>
      apply (Language.scans_lexeme (Language.writable_word (by decide))).imp
      rintro tokens ⟨position, rfl⟩
      exact .primary (.leaf (.true (.word (by decide))))
  | false =>
      apply (Language.scans_lexeme (Language.writable_word (by decide))).imp
      rintro tokens ⟨position, rfl⟩
      exact .primary (.leaf (.false (.word (by decide))))

theorem scans_reference {index : UInt32} (holds : Bracket.square.Holds (referenceName names index)) :
    Scans (renderReference names index).toList fun tokens =>
      Derives .unary nesting tokens (.reference (referenceName names index)) := by
  have split : (renderReference names index).toList =
      (Lexeme.bracketed (referenceName names index)).written ++ [] := by
    simp [render_reference_eq, Lexeme.written, Bracket.opening, Bracket.closing]
  rw [split]
  apply Scans.behind_sign (.bracketed holds) (by simp)
  exact scans_nil fun position => .primary (.leaf .reference)

/-- A connective is shown as a chain in parentheses, which takes one of the parentheses. -/
theorem scans_chain (chain : Chain) {shared : UInt32 → Prop} {members : List Condition}
    (several : 2 ≤ members.length) (plain : ∀ member ∈ members, Plain shared member)
    (cheap : Nat.clog 2 members.length + costOfMembers members ≤ nesting + 1)
    (each : ∀ member ∈ members, ∀ nesting, member.cost ≤ nesting + 1 →
      Scans (member.render names).toList fun tokens =>
        Derives .unary nesting tokens (member.expr names)) :
    Scans ("(" ++ chain.separator.intercalate (renderMembers names members) ++ ")").toList
      fun tokens => Derives .unary nesting tokens (chain.tree (exprs names members)) := by
  have halves := Nat.clog_pos (by decide : 1 < 2) several
  cases members with
  | nil => cases several
  | cons first others =>
      have bound : first.cost ≤ costOfMembers (first :: others) :=
        cost_le_cost_of_members first List.mem_cons_self
      have positive := (plain first List.mem_cons_self).cost_pos
      cases nesting with
      | zero => omega
      | succ nesting =>
          let part := fun member : Condition => ((member.render names).toList, member.expr names)
          have parts : ∀ operand ∈ part first :: others.map part, Scans operand.1 fun tokens =>
              Derives .unary nesting tokens operand.2 := by
            rw [← List.map_cons, List.forall_mem_map]
            intro member inside
            have less := cost_le_cost_of_members member inside
            exact each member inside nesting (by omega)
          have texts : ("(" ++ chain.separator.intercalate (renderMembers names (first :: others)) ++
              ")").toList = '(' :: ((part first).1 ++ chain.tail ((others.map part).map Prod.fst) ++
                [')']) := by
            rw [render_members_eq_map, List.map_cons, String.toList_append, String.toList_append,
              Language.toList_intercalate]
            simp [Chain.tail, List.flatMap_map, part]
          have trees : (others.map part).map Prod.snd = exprs names others := by
            rw [exprs_eq_map, List.map_map]
            rfl
          have enclosed := chain.scans_enclosed parts
          rw [trees] at enclosed
          rw [texts]
          exact enclosed

/-- Legible conditions without constants are shown as unary expressions. -/
theorem Plain.scans {shared : UInt32 → Prop} {condition : Condition} (plain : Plain shared condition)
    (legible : condition.Legible)
    (named : ∀ index ∈ condition.references, Bracket.square.Holds (referenceName names index))
    (cheap : condition.cost ≤ nesting + 1) :
    Scans (condition.render names).toList fun tokens =>
      Derives .unary nesting tokens (condition.expr names) := by
  induction plain generalizing nesting with
  | all several plain _ induction =>
      cases legible with
      | all legible =>
          apply scans_chain .conjunction several plain cheap
          exact fun member inside nesting => induction member inside (legible member inside)
            (forall_references_of_members named member inside)
  | any several plain _ induction =>
      cases legible with
      | any legible =>
          apply scans_chain .disjunction several plain cheap
          exact fun member inside nesting => induction member inside (legible member inside)
            (forall_references_of_members named member inside)
  | @not operand _ _ induction =>
      cases legible with
      | not legible =>
          have split : (render names (.not operand)).toList =
              (Lexeme.word "NOT").written ++ ' ' :: (operand.render names).toList := by
            rw [render, String.toList_append]
            rfl
          rw [cost] at cheap
          rw [split]
          apply Scans.behind_spaced (Language.writable_word (by decide))
          apply (induction legible named (by omega : operand.cost ≤ nesting + 1)).imp
          exact fun tokens derived position => .not (.word (by decide)) derived
  | tag =>
      cases legible with
      | tag holds => exact scans_tag holds
  | attr =>
      cases legible with
      | attr present word legible => exact scans_attr present word legible
  | predicate =>
      exact scans_reference (named _ (by simp [references]))

theorem Normal.scans {shared : UInt32 → Prop} {condition : Condition}
    (normal : condition.Normal shared) (legible : condition.Legible)
    (named : ∀ index ∈ condition.references, Bracket.square.Holds (referenceName names index))
    (cheap : condition.cost ≤ nesting + 1) :
    Scans (condition.render names).toList fun tokens =>
      Derives .unary nesting tokens (condition.expr names) := by
  cases normal with
  | @const value => exact scans_const value
  | plain plain => exact plain.scans legible named cheap

end Texts

section Trees

variable {names : List String} {shared : UInt32 → Prop} {condition : Condition}

theorem depth_chain (chain : Chain) {members : List Condition} (several : 2 ≤ members.length)
    (each : ∀ member ∈ members, (member.expr names).depth ≤ member.cost) :
    (chain.tree (exprs names members)).depth ≤
      Nat.clog 2 members.length + costOfMembers members := by
  cases members with
  | nil => cases several
  | cons first others =>
      have bound : ∀ operand ∈ (first :: others).map (expr names),
          operand.depth ≤ costOfMembers (first :: others) := by
        rw [List.forall_mem_map]
        intro member inside
        exact Nat.le_trans (each member inside) (cost_le_cost_of_members member inside)
      have folded := Language.folded_balanced chain.join (first.expr names)
        (others.map (expr names))
      have depth := chain.depth_folded_le folded bound
      rw [exprs_eq_map, List.map_cons]
      rw [List.length_cons, List.length_map] at depth
      rw [Nat.add_comm]
      exact depth

theorem Plain.depth_expr (plain : Plain shared condition) :
    (condition.expr names).depth ≤ condition.cost := by
  induction plain with
  | all several _ _ induction => exact depth_chain .conjunction several induction
  | any several _ _ induction => exact depth_chain .disjunction several induction
  | not _ _ induction => exact Nat.succ_le_succ induction
  | _ => exact Nat.le_refl _

theorem Normal.depth_expr (normal : condition.Normal shared) :
    (condition.expr names).depth ≤ condition.cost := by
  cases normal with
  | const => exact Nat.le_refl _
  | plain plain => exact plain.depth_expr

end Trees

end Condition

open Condition (Loose Normal Plain exprs referenceName)

namespace Connective

variable {connective : Connective} {shared : UInt32 → Prop} {members : List Condition}

/-- Members that may stand together are what their join is split into. -/
theorem split_join_all (loose : Loose connective.wrap shared members) :
    connective.split (connective.joinAll members) = some members := by
  obtain ⟨plain, flat⟩ := loose
  induction members with
  | nil => exact split_unit
  | cons head tail induction =>
      obtain ⟨plainHead, plainTail⟩ := List.forall_mem_cons.mp plain
      have normalTail : ∀ member ∈ tail, member.Normal shared :=
        fun member inside => .plain (plainTail member inside)
      have alone : connective.split head = some [head] := by
        apply split_other
        · rintro value rfl
          cases plainHead
        · rintro inner rfl
          exact flat inner List.mem_cons_self
      have later := induction plainTail fun inner inside => flat inner (List.mem_cons_of_mem _ inside)
      change connective.split (connective.join head (connective.joinAll tail)) = _
      rw [split_join (.plain plainHead) (connective.normal_join_all normalTail), alone, later]
      rfl

theorem join_all_eq_wrap (several : 2 ≤ members.length)
    (loose : Loose connective.wrap shared members) :
    connective.joinAll members = connective.wrap members := by
  have normal : ∀ member ∈ members, member.Normal shared :=
    fun member inside => .plain (loose.1 member inside)
  calc connective.joinAll members
      = connective.collect (connective.split (connective.joinAll members)) :=
        (collect_split (connective.normal_join_all normal)).symm
    _ = connective.collect (some members) := by rw [split_join_all loose]
    _ = connective.wrap members := by
        match members, several with
        | _ :: _ :: _, _ => rfl

end Connective

section Lowering

variable {names : List String} {known : List Predicate} {shared : UInt32 → Prop}
  {condition : Condition} {members : List Condition}

theorem mapM_exprs
    (each : ∀ member ∈ members, lower known (member.expr names) = .ok member) :
    (exprs names members).mapM (lower known) = .ok members := by
  induction members with
  | nil => rfl
  | cons head tail induction =>
      obtain ⟨first, later⟩ := List.forall_mem_cons.mp each
      rw [exprs, List.mapM_cons, first, induction later]
      rfl

/-- The tree of a connective compiles to its members in their order. -/
theorem lower_tree (chain : Chain) (several : 2 ≤ members.length)
    (loose : Loose chain.connective.wrap shared members)
    (each : ∀ member ∈ members, lower known (member.expr names) = .ok member) :
    lower known (chain.tree (exprs names members)) = .ok (chain.connective.wrap members) := by
  have same : chain.join = chain.connective.expr := by cases chain <;> rfl
  have lowered := mapM_exprs each
  have grouped : Language.Grouped chain.connective.expr (exprs names members)
      (chain.tree (exprs names members)) := by
    cases members with
    | nil => cases several
    | cons first others =>
        rw [← same]
        exact Language.grouped_balanced _ _ _
  rw [lower_grouped grouped, lowered, ← chain.connective.join_all_eq_wrap several loose]
  rfl

/-- What a condition is shown as compiles to it, if the names of its references find what they refer
to. -/
theorem Condition.Plain.lower_expr (plain : Plain shared condition)
    (finds : ∀ index ∈ condition.references,
      resolve known (referenceName names index) = .ok (.predicate index)) :
    lower known (condition.expr names) = .ok condition := by
  induction plain with
  | all several plain flat induction =>
      apply lower_tree .conjunction several ⟨plain, flat⟩
      exact fun member inside =>
        induction member inside (Condition.forall_references_of_members finds member inside)
  | any several plain flat induction =>
      apply lower_tree .disjunction several ⟨plain, flat⟩
      exact fun member inside =>
        induction member inside (Condition.forall_references_of_members finds member inside)
  | @not operand plain other induction =>
      have negated : operand.negation = .not operand := by
        cases plain with
        | not => exact absurd rfl (other _)
        | _ => rfl
      rw [Condition.expr, lower, induction finds, ← negated]
      rfl
  | tag => rfl
  | attr => rfl
  | predicate => exact finds _ (by simp [Condition.references])

theorem Condition.Normal.lower_expr (normal : condition.Normal shared)
    (finds : ∀ index ∈ condition.references,
      resolve known (referenceName names index) = .ok (.predicate index)) :
    lower known (condition.expr names) = .ok condition := by
  cases normal with
  | const => rfl
  | plain plain => exact plain.lower_expr finds

end Lowering

end TagPolicy
