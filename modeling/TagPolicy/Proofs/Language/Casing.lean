import TagPolicy.Proofs.Language.Reprinting
import TagPolicy.Proofs.Language.Wording

/-!
The case of letters. A bare word that is no argument of a call may be respelled in any case: the same
statements are read, since keywords, functions and truth values are known in any case and integers
have no letters. Names and strings may not: their letters are those of the statements.
-/

namespace TagPolicy

namespace Text

/-- A character that comes before the letters has no other form. -/
theorem eq_of_lower_ascii {char other : Char} (low : char < 'A')
    (same : lowerAscii other = lowerAscii char) : other = char := by
  have notUpper : ¬ ('A' ≤ char ∧ char ≤ 'Z') := fun upper => absurd upper.1 (Char.not_le.mpr low)
  rw [lowerAscii.eq_1 char, if_neg notUpper] at same
  by_cases upper : 'A' ≤ other ∧ other ≤ 'Z'
  · rw [lowerAscii, if_pos upper] at same
    simp only [Char.le_def, Char.lt_def, UInt32.le_iff_toNat_le, UInt32.lt_iff_toNat_lt] at upper low
    have least : 65 ≤ other.toNat := upper.1
    have most : other.toNat ≤ 90 := upper.2
    have code : char.toNat = other.toNat + 32 := by
      rw [← same, Char.ofNat, dif_pos (Or.inl (by omega))]
      rfl
    have before : char.toNat < 65 := low
    omega
  · rwa [lowerAscii, if_neg upper] at same

theorem eq_of_map_lower_ascii {chars others : List Char} (low : ∀ char ∈ chars, char < 'A')
    (same : others.map lowerAscii = chars.map lowerAscii) : others = chars := by
  induction chars generalizing others with
  | nil => exact List.map_eq_nil_iff.mp same
  | cons char chars induction =>
      obtain ⟨lowFirst, low⟩ := List.forall_mem_cons.mp low
      cases others with
      | nil => cases same
      | cons other others =>
          obtain ⟨first, rest⟩ := List.cons.inj same
          rw [eq_of_lower_ascii lowFirst first, induction low rest]

theorem WritesInt.low {chars : List Char} {value : Int} (writes : WritesInt chars value) :
    ∀ char ∈ chars, char < 'A' := by
  have nine : '9' < 'A' := by decide
  have digits : ∀ {list : List Char}, (∀ char ∈ list, IsDigit char) → ∀ char ∈ list, char < 'A' :=
    fun each char inside => Nat.lt_of_le_of_lt (each char inside).2 nine
  cases writes with
  | unsigned _ each => exact digits each
  | plus _ each => exact List.forall_mem_cons.mpr ⟨by decide, digits each⟩
  | minus _ each => exact List.forall_mem_cons.mpr ⟨by decide, digits each⟩

/-- An integer is written without letters, so it has one spelling. -/
theorem WritesInt.eq_of_same_word {word other : String} {value : Int}
    (writes : WritesInt word.toList value) (same : sameWord word other = true) : other = word := by
  have words : lowerWord word = lowerWord other := by simpa [sameWord] using same
  have chars : other.toList.map lowerAscii = word.toList.map lowerAscii := by
    simpa [lowerWord] using (congrArg String.toList words).symm
  exact String.toList_injective (eq_of_map_lower_ascii writes.low chars)

end Text

namespace Language

open Grammar
open Outcome (bind_eq_ok pure_eq_ok)
open Text (Position sameWord same_word_congr)

/-- Tokens that differ at most in their places and in the case of bare words, none of which is the
argument of a call. -/
inductive Recased : Lead → List Token → List Token → Prop
  | nil {lead : Lead} : Recased lead [] []
  | same {lead : Lead} {lexeme : Lexeme} {here there : Position} {left right : List Token} :
      Recased (lead.next lexeme) left right →
        Recased lead (⟨lexeme, here⟩ :: left) (⟨lexeme, there⟩ :: right)
  | word {lead : Lead} {first second : String} {here there : Position} {left right : List Token} :
      lead ≠ .call → sameWord first second = true →
        Recased (lead.next (.word first)) left right →
          Recased lead (⟨.word first, here⟩ :: left) (⟨.word second, there⟩ :: right)

section Recased

variable {lead : Lead} {left right front back tokens : List Token} {token other : Token}

theorem next_of_same_word {first second : String} (same : sameWord first second = true) :
    lead.next (.word first) = lead.next (.word second) := by
  rw [Lead.next, Lead.next, names_function_congr same]

theorem Recased.symm (recased : Recased lead left right) : Recased lead right left := by
  induction recased with
  | nil => exact .nil
  | same _ induction => exact .same induction
  | word apart same _ induction =>
      rw [next_of_same_word same] at induction
      rw [sameWord, beq_iff_eq] at same
      exact .word apart (by rw [sameWord, same, beq_self_eq_true]) induction

theorem Recased.cons (recased : Recased lead (token :: tokens) right) :
    ∃ other others, right = other :: others ∧ Recased lead [token] [other] ∧
      Recased (lead.next token.lexeme) tokens others := by
  cases recased with
  | same rest => exact ⟨_, _, rfl, .same .nil, rest⟩
  | word apart same rest => exact ⟨_, _, rfl, .word apart same .nil, rest⟩

theorem Recased.split (recased : Recased lead (front ++ back) right) :
    ∃ first later, right = first ++ later ∧ Recased lead front first ∧
      Recased (lead.after (front.map Token.lexeme)) back later := by
  induction front generalizing lead right with
  | nil => exact ⟨[], right, rfl, .nil, recased⟩
  | cons token front induction =>
      cases recased with
      | same rest =>
          obtain ⟨first, later, rfl, inFront, inBack⟩ := induction rest
          exact ⟨_ :: first, later, rfl, .same inFront, inBack⟩
      | word apart same rest =>
          obtain ⟨first, later, rfl, inFront, inBack⟩ := induction rest
          exact ⟨_ :: first, later, rfl, .word apart same inFront, inBack⟩

/-- What comes behind a part that tells some texts is respelled as if it came first. -/
theorem Tells.split {texts : List String} (tells : Tells front texts)
    (recased : Recased .other (front ++ back) right) :
    ∃ first later, right = first ++ later ∧ Recased .other front first ∧
      Recased .other back later := by
  obtain ⟨first, later, parts, inFront, inBack⟩ := recased.split
  rw [tells.ended] at inBack
  exact ⟨first, later, parts, inFront, inBack⟩

end Recased

section Derived

variable {lead : Lead} {right tokens : List Token} {token other function named operator operand : Token}
  {keyword name : String} {value : Value} {comparison : Comparison} {expr : Expr}
  {opening closing : Position} {category : Category} {nesting : Nat} {statement : Statement}
  {statements : List Statement}

theorem Grammar.IsKeyword.recased (spelled : IsKeyword keyword token)
    (recased : Recased lead [token] [other]) : IsKeyword keyword other := by
  cases spelled with
  | word same =>
      cases recased with
      | same => exact .word same
      | word _ again => exact .word ((same_word_congr again keyword).symm.trans same)

/-- A keyword in front of tokens and the tokens behind it are respelled apart from each other. -/
theorem Grammar.IsKeyword.leads (spelled : IsKeyword keyword token)
    (plain : namesFunction keyword = false) (recased : Recased .other (token :: tokens) right) :
    ∃ other others, right = other :: others ∧ IsKeyword keyword other ∧
      Recased .other tokens others := by
  obtain ⟨other, others, rfl, first, behind⟩ := recased.cons
  have ended : Lead.other.next token.lexeme = .other := (spelled.tells plain).ended
  rw [ended] at behind
  exact ⟨other, others, rfl, spelled.recased first, behind⟩

theorem Grammar.IsName.recased (isName : IsName name token)
    (recased : Recased .call [token] [other]) : IsName name other := by
  cases isName with
  | word present =>
      cases recased with
      | same => exact .word present
      | word apart => exact absurd rfl apart
  | quoted present =>
      cases recased with
      | same => exact .quoted present

theorem Grammar.IsComparison.recased (compared : IsComparison comparison token)
    (recased : Recased lead [token] [other]) : IsComparison comparison other := by
  cases compared with
  | equal =>
      cases recased with
      | same => exact .equal
  | unequal =>
      cases recased with
      | same => exact .unequal

theorem Grammar.IsValue.recased (denoted : IsValue value token)
    (recased : Recased lead [token] [other]) : IsValue value other := by
  cases denoted with
  | text =>
      cases recased with
      | same => exact .text
  | integer writes =>
      cases recased with
      | same => exact .integer writes
      | word _ again =>
          rw [writes.eq_of_same_word again]
          exact .integer writes
  | true spelled => exact .true (spelled.recased recased)
  | false spelled => exact .false (spelled.recased recased)

theorem recased_call (spelled : IsKeyword keyword function) (calls : namesFunction keyword = true)
    (isName : IsName name named)
    (recased : Recased .other [function, ⟨.openParen, opening⟩, named, ⟨.closeParen, closing⟩] right) :
    ∃ first here second there,
      right = [first, ⟨.openParen, here⟩, second, ⟨.closeParen, there⟩] ∧
        IsKeyword keyword first ∧ IsName name second := by
  obtain ⟨first, others, rfl, calling, rest⟩ := recased.cons
  have behind : Lead.other.next function.lexeme = .function := by
    cases spelled with
    | word same => simp [Lead.next, names_function_congr same, calls]
  rw [behind] at rest
  cases rest with
  | same inside =>
      obtain ⟨second, others, rfl, naming, closes⟩ := inside.cons
      cases closes with
      | same nothing =>
          cases nothing
          exact ⟨first, _, second, _, rfl, spelled.recased calling, isName.recased naming⟩

theorem Grammar.Leaf.recased (leaf : Leaf tokens expr) (recased : Recased .other tokens right) :
    Leaf right expr := by
  cases leaf with
  | true spelled =>
      obtain ⟨word, nothing, rfl, again, ends⟩ := spelled.leads (by decide) recased
      cases ends
      exact .true again
  | false spelled =>
      obtain ⟨word, nothing, rfl, again, ends⟩ := spelled.leads (by decide) recased
      cases ends
      exact .false again
  | call spelled isName =>
      obtain ⟨first, here, second, there, rfl, calling, naming⟩ :=
        recased_call spelled (by decide) isName recased
      exact .call calling naming
  | braced =>
      cases recased with
      | same rest =>
          cases rest
          exact .braced
  | attr spelled isName compared denoted =>
      have recased : Recased .other ([_, _, _, _] ++ [_, _]) right := recased
      obtain ⟨front, back, rfl, inCall, behind⟩ :=
        (tells_call spelled (by decide) isName).split recased
      obtain ⟨first, here, second, there, rfl, calling, naming⟩ :=
        recased_call spelled (by decide) isName inCall
      obtain ⟨operator, others, rfl, inOperator, behind⟩ := behind.cons
      obtain ⟨operand, others, rfl, inOperand, behind⟩ := behind.cons
      cases behind
      exact .attr calling naming (compared.recased inOperator) (denoted.recased inOperand)
  | reference =>
      cases recased with
      | same rest =>
          cases rest
          exact .reference

/-- The operands of a chain are respelled one by one. -/
theorem Grammar.Repeated.recased {operands : List Operand} {good : List Token → Expr → Prop}
    (plain : namesFunction keyword = false)
    (each : ∀ operand ∈ operands, Tells operand.1 operand.2.texts ∧
      ∀ right, Recased .other operand.1 right → good right operand.2)
    (repeated : Repeated keyword (operands.map Prod.fst) tokens)
    (recased : Recased .other tokens right) :
    ∃ others : List Operand, Repeated keyword (others.map Prod.fst) right ∧
      others.map Prod.snd = operands.map Prod.snd ∧ ∀ other ∈ others, good other.1 other.2 := by
  induction operands generalizing tokens right with
  | nil =>
      cases repeated
      cases recased
      exact ⟨[], .nil, rfl, by simp⟩
  | cons first operands induction =>
      obtain ⟨⟨tells, writes⟩, each⟩ := List.forall_mem_cons.mp each
      rw [List.map_cons] at repeated
      cases repeated with
      | @cons word _ tail _ spelled repeated =>
          obtain ⟨keyword, behind, rfl, again, inBehind⟩ := spelled.leads plain recased
          obtain ⟨part, later, rfl, inPart, inLater⟩ := tells.split inBehind
          obtain ⟨others, repeated, same, good⟩ := induction each repeated inLater
          refine ⟨(part, first.2) :: others, .cons again repeated, ?_, ?_⟩
          · rw [List.map_cons, List.map_cons, same]
          · exact List.forall_mem_cons.mpr ⟨writes part inPart, good⟩

/-- A chain whose operands are respelled has the same tree. -/
theorem recased_chain {join : Expr → Expr → Expr} {tight : Category} {first : Operand}
    {others : List Operand}
    (derives : ∀ {first : Operand} {others : List Operand} {tail : List Token} {expr : Expr},
      (∀ operand ∈ first :: others, Derives tight nesting operand.1 operand.2) →
        Repeated keyword (others.map Prod.fst) tail →
          Folded join ((first :: others).map Prod.snd) expr →
            Derives category nesting (first.1 ++ tail) expr)
    (plain : namesFunction keyword = false)
    (operands : ∀ operand ∈ first :: others, Derives tight nesting operand.1 operand.2)
    (each : ∀ operand ∈ first :: others, ∀ right, Recased .other operand.1 right →
      Derives tight nesting right operand.2)
    (repeated : Repeated keyword (others.map Prod.fst) tokens)
    (folded : Folded join ((first :: others).map Prod.snd) expr)
    (recased : Recased .other (first.1 ++ tokens) right) : Derives category nesting right expr := by
  obtain ⟨derived, operands⟩ := List.forall_mem_cons.mp operands
  obtain ⟨writes, each⟩ := List.forall_mem_cons.mp each
  obtain ⟨front, tail, rfl, inFront, inTail⟩ := derived.tells.split recased
  obtain ⟨further, repeated, same, good⟩ := repeated.recased plain
    (fun operand inside => ⟨(operands operand inside).tells, each operand inside⟩) inTail
  rw [List.map_cons, ← same] at folded
  exact @derives (front, first.2) _ _ _
    (List.forall_mem_cons.mpr ⟨writes front inFront, good⟩) repeated folded

/-- Respelled tokens derive the same expression. -/
theorem Grammar.Derives.recased (derived : Derives category nesting tokens expr)
    (recased : Recased .other tokens right) : Derives category nesting right expr := by
  induction derived generalizing right with
  | or operands repeated folded induction =>
      exact recased_chain .or (by decide) operands (fun operand inside _ => induction operand inside)
        repeated folded recased
  | and operands repeated folded induction =>
      exact recased_chain .and (by decide) operands
        (fun operand inside _ => induction operand inside) repeated folded recased
  | not spelled _ induction =>
      obtain ⟨word, others, rfl, again, behind⟩ := spelled.leads (by decide) recased
      exact .not again (induction behind)
  | primary _ induction => exact .primary (induction recased)
  | parens derived induction =>
      cases recased with
      | same inside =>
          obtain ⟨front, back, rfl, inFront, closes⟩ := derived.tells.split inside
          cases closes with
          | same nothing =>
              cases nothing
              exact .parens (induction inFront)
  | leaf leaf => exact .leaf (leaf.recased recased)

theorem Grammar.IsStatement.recased (derived : IsStatement nesting tokens statement)
    (recased : Recased .other tokens right) :
    ∃ line, IsStatement nesting right (statement.atLine line) := by
  cases derived with
  | define spelled spelledAs derived =>
      obtain ⟨word, others, rfl, again, behind⟩ := spelled.leads (by decide) recased
      cases behind with
      | same behind =>
          obtain ⟨as, body, rfl, againAs, behind⟩ := spelledAs.leads (by decide) behind
          exact ⟨_, .define again againAs (derived.recased behind)⟩
  | rule spelled derived =>
      obtain ⟨word, others, rfl, again, behind⟩ :=
        spelled.leads (names_function_effect_word _) recased
      exact ⟨_, .rule again (derived.recased behind)⟩
  | ruleIf spelled spelledIf derived =>
      obtain ⟨word, others, rfl, again, behind⟩ :=
        spelled.leads (names_function_effect_word _) recased
      obtain ⟨«if», condition, rfl, againIf, behind⟩ := spelledIf.leads (by decide) behind
      exact ⟨_, .ruleIf again againIf (derived.recased behind)⟩

theorem Grammar.IsDocument.recased (document : IsDocument nesting tokens statements)
    (recased : Recased .other tokens right) :
    ∃ others, IsDocument nesting right others ∧
      others.map (Statement.atLine 0) = statements.map (Statement.atLine 0) := by
  induction document generalizing right with
  | nil =>
      cases recased
      exact ⟨[], .nil, rfl⟩
  | @cons front tokens statement statements first _ induction =>
      obtain ⟨start, later, rfl, inFirst, inLater⟩ := first.tells.split recased
      obtain ⟨line, again⟩ := first.recased inFirst
      obtain ⟨others, document, same⟩ := induction inLater
      refine ⟨statement.atLine line :: others, .cons again document, ?_⟩
      rw [List.map_cons, List.map_cons, same]
      cases statement <;> rfl

end Derived

section Documents

variable {left right : String} {leftTokens rightTokens : List Token} {document : Document}
  {statements others : List Statement}

/-- The document, apart from the lines of its statements. -/
def Document.unlined (document : Document) : Document :=
  ⟨document.statements.map (Statement.atLine 0)⟩

@[simp] theorem Statement.texts_at_line (line : Nat) (statement : Statement) :
    (statement.atLine line).texts = statement.texts := by
  cases statement <;> rfl

theorem Document.texts_unlined (document : Document) : document.unlined.texts = document.texts := by
  simp [texts, unlined, List.flatMap_map]

theorem exprs_of_unlined
    (same : others.map (Statement.atLine 0) = statements.map (Statement.atLine 0)) :
    others.map Statement.expr = statements.map Statement.expr := by
  simpa [Function.comp_def] using congrArg (List.map Statement.expr) same

theorem names_of_unlined
    (same : others.map (Statement.atLine 0) = statements.map (Statement.atLine 0)) :
    others.map Statement.defined? = statements.map Statement.defined? := by
  simpa [Function.comp_def] using congrArg (List.map Statement.defined?) same

/-- A respelled text is read if the text is, and as the same statements. -/
theorem Document.parse_of_recased (scannedLeft : tokenize left = .ok leftTokens)
    (scannedRight : tokenize right = .ok rightTokens)
    (recased : Recased .other leftTokens rightTokens) (parsed : parse left = .ok document) :
    ∃ other, parse right = .ok other ∧ other.unlined = document.unlined := by
  obtain ⟨tokens, rescanned, derived, inScope, shallow⟩ := of_parse parsed
  rw [scannedLeft] at rescanned
  cases rescanned
  obtain ⟨others, again, same⟩ := derived.recased recased
  have exprs := exprs_of_unlined same
  have scope : InScope [] others := (in_scope_congr exprs (names_of_unlined same)).mpr inScope
  have depths : ∀ expr ∈ document.statements.map Statement.expr, expr.depth ≤ maxDepth :=
    List.forall_mem_map.mpr shallow
  rw [← exprs, List.forall_mem_map] at depths
  have read : ofTokens (.finish right) rightTokens = .ok ⟨others⟩ :=
    bind_eq_ok.mpr ⟨others, read_statements_of_document again scope depths (Nat.le_refl _), rfl⟩
  exact ⟨⟨others⟩, bind_eq_ok.mpr ⟨rightTokens, scannedRight, read⟩, congrArg Document.mk same⟩

/-- Lexemes that hold a text as a name or string where they stand: strings, names in brackets of
either kind, and words behind the opening of a call. -/
inductive HoldsText : List Lexeme → (String → Lexeme) → Prop
  | quoted {before : List Lexeme} : HoldsText before .quoted
  | braced {before : List Lexeme} : HoldsText before .braced
  | bracketed {before : List Lexeme} : HoldsText before .bracketed
  | argument {front : List Lexeme} {function : String} : namesFunction function = true →
      HoldsText (front ++ [.word function, .openParen]) .word

theorem HoldsText.held {before : List Lexeme} {make : String → Lexeme}
    (holds : HoldsText before make) (text : String) :
    (Lead.other.after before).held (make text) = [text] := by
  cases holds with
  | argument function =>
      rw [Lead.after_eq_call.mpr ⟨_, _, rfl, function⟩]
      rfl
  | quoted => rfl
  | braced => rfl
  | bracketed => rfl

theorem texts_ne {before after : List Lexeme} {make : String → Lexeme} {first second : String}
    (holds : HoldsText before make) (different : first ≠ second) :
    Lead.other.texts (before ++ make first :: after) ≠
      Lead.other.texts (before ++ make second :: after) := by
  intro same
  rw [Lead.texts_append, Lead.texts_append, Lead.texts, Lead.texts, holds.held, holds.held] at same
  exact different (List.cons.inj (List.append_cancel_left same)).1

/-- Two texts whose tokens differ only in the case of bare words, of which none is the argument of a
call, are both read or both refused, and what is read is the same apart from lines. Two texts whose
tokens differ in one name or string alone, be it only in case, are never read as the same. -/
theorem Document.parse_recased (scannedLeft : tokenize left = .ok leftTokens)
    (scannedRight : tokenize right = .ok rightTokens) :
    (Recased .other leftTokens rightTokens →
      ((∃ document, parse left = .ok document) ↔ ∃ document, parse right = .ok document) ∧
        ∀ first second, parse left = .ok first → parse right = .ok second →
          first.unlined = second.unlined) ∧
      ∀ (before after : List Lexeme) (make : String → Lexeme) (name other : String),
        HoldsText before make → name ≠ other →
          leftTokens.map Token.lexeme = before ++ make name :: after →
            rightTokens.map Token.lexeme = before ++ make other :: after →
              ∀ first second, parse left = .ok first → parse right = .ok second →
                first.unlined ≠ second.unlined := by
  constructor
  · intro recased
    refine ⟨⟨?_, ?_⟩, ?_⟩
    · rintro ⟨document, parsed⟩
      obtain ⟨other, again, -⟩ := parse_of_recased scannedLeft scannedRight recased parsed
      exact ⟨other, again⟩
    · rintro ⟨document, parsed⟩
      obtain ⟨other, again, -⟩ := parse_of_recased scannedRight scannedLeft recased.symm parsed
      exact ⟨other, again⟩
    · intro first second parsed parsedRight
      obtain ⟨other, again, same⟩ := parse_of_recased scannedLeft scannedRight recased parsed
      rw [parsedRight] at again
      cases again
      exact same.symm
  · intro before after make name other holds different spelled respelled first second parsed
      parsedRight same
    have texts := texts_of_parse parsed scannedLeft
    have others := texts_of_parse parsedRight scannedRight
    rw [spelled, ← texts_unlined, same, texts_unlined, ← others, respelled] at texts
    exact texts_ne holds different texts

def untrueText (deny not attr name truth : String) : String :=
  deny ++ " " ++ not ++ " " ++ attr ++ "(" ++ name ++ ") == " ++ truth

def untrueTokens (deny not attr name truth : String) : List Token :=
  [⟨.word deny, ⟨0, 1, 1⟩⟩, ⟨.word not, ⟨5, 1, 6⟩⟩, ⟨.word attr, ⟨9, 1, 10⟩⟩,
    ⟨.openParen, ⟨13, 1, 14⟩⟩, ⟨.word name, ⟨14, 1, 15⟩⟩, ⟨.closeParen, ⟨17, 1, 18⟩⟩,
    ⟨.equal, ⟨19, 1, 20⟩⟩, ⟨.word truth, ⟨22, 1, 23⟩⟩]

def untrueDocument (name : String) : Document :=
  ⟨[.rule .deny (.not (.attr name .equal (.boolean true))) 1]⟩

/-- The name of an attribute keeps its case even where it spells a keyword. -/
theorem Document.name_spelled_like_keyword :
    ∃ second, parse (untrueText "Deny" "NOT" "attr" "Not" "True") = .ok (untrueDocument "Not") ∧
      parse (untrueText "deny" "not" "ATTR" "Not" "tRUE") = .ok second ∧
        parse (untrueText "Deny" "NOT" "attr" "NOT" "True") = .ok (untrueDocument "NOT") ∧
          (untrueDocument "Not").unlined = second.unlined ∧
            (untrueDocument "Not").unlined ≠ (untrueDocument "NOT").unlined := by
  have first : parse (untrueText "Deny" "NOT" "attr" "Not" "True") = .ok (untrueDocument "Not") := by
    decide +kernel
  have third : parse (untrueText "Deny" "NOT" "attr" "NOT" "True") = .ok (untrueDocument "NOT") := by
    decide +kernel
  have scannedFirst : tokenize (untrueText "Deny" "NOT" "attr" "Not" "True") =
      .ok (untrueTokens "Deny" "NOT" "attr" "Not" "True") := by decide +kernel
  have scannedSecond : tokenize (untrueText "deny" "not" "ATTR" "Not" "tRUE") =
      .ok (untrueTokens "deny" "not" "ATTR" "Not" "tRUE") := by decide +kernel
  have scannedThird : tokenize (untrueText "Deny" "NOT" "attr" "NOT" "True") =
      .ok (untrueTokens "Deny" "NOT" "attr" "NOT" "True") := by decide +kernel
  have recased : Recased .other (untrueTokens "Deny" "NOT" "attr" "Not" "True")
      (untrueTokens "deny" "not" "ATTR" "Not" "tRUE") :=
    .word (by decide) (by decide) (.word (by decide) (by decide) (.word (by decide) (by decide)
      (.same (.same (.same (.same (.word (by decide) (by decide) .nil)))))))
  obtain ⟨readable, same⟩ := (parse_recased scannedFirst scannedSecond).1 recased
  obtain ⟨second, parsed⟩ := readable.mp ⟨_, first⟩
  have argument : HoldsText ([.word "Deny", .word "NOT"] ++ [.word "attr", .openParen]) .word :=
    .argument (by decide)
  have different := (parse_recased scannedFirst scannedThird).2 _
    [.closeParen, .equal, .word "True"] _ "Not" "NOT" argument (by decide) rfl rfl _ _ first third
  exact ⟨second, first, parsed, third, same _ _ first parsed, different⟩

end Documents

end Language

end TagPolicy
