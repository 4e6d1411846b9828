import TagPolicy.Proofs.Language.Balance
import TagPolicy.Proofs.Language.Reprinting

/-!
Passages of a text: characters that are scanned as tokens of some kind, wherever they stand. A text
is built from its end: a lexeme or a passage in front of another is a passage, if no word runs into
the next one. The passages of the operands of a chain, with its keyword between them, are a passage
of the chain.
-/

namespace TagPolicy.Language

open Grammar
open Text (Position isBlank sameWord)

/-- Tokens of some kind are scanned from the characters, whatever comes after them but the rest of
a word. -/
def Scans (chars : List Char) (kind : List Token → Prop) : Prop :=
  ∀ position rest tokens, Apart chars rest →
    Scan.between.run (position.after chars) rest = .ok tokens →
      ∃ front, kind front ∧ Scan.between.run position (chars ++ rest) = .ok (front ++ tokens)

section Building

variable {chars more front back : List Char} {char : Char} {kind good : List Token → Prop}
  {lexeme : Lexeme}

theorem apart_of_head (ended : ∀ next ∈ back.head?, isWordChar next = false) : Apart front back :=
  fun _ _ _ => ended

theorem apart_of_sign (sign : ∀ text, lexeme ≠ .word text) : Apart lexeme.written back := by
  intro last ends isWord
  have other : isWordChar last = false := by
    cases lexeme with
    | word text => exact absurd rfl (sign text)
    | _ =>
        simp only [Lexeme.written, List.getLast?_cons, List.getLast?_append] at ends
        cases ends
        rfl
  rw [other] at isWord
  cases isWord

theorem apart_before_sign (sign : ∀ text, lexeme ≠ .word text) :
    Apart front (lexeme.written ++ more) := by
  apply apart_of_head
  cases lexeme with
  | word text => exact absurd rfl (sign text)
  | _ =>
      rintro next ⟨⟩
      decide

theorem Apart.of_append (apart : Apart (chars ++ more) back) : Apart more back := by
  intro last ends
  apply apart last
  rw [Option.mem_def] at ends
  rw [Option.mem_def, List.getLast?_append, ends, Option.some_or]

theorem scans_nil (nothing : kind []) : Scans [] kind :=
  fun _ _ _ _ runs => ⟨[], nothing, runs⟩

theorem Scans.imp (scans : Scans chars kind) (better : ∀ tokens, kind tokens → good tokens) :
    Scans chars good := by
  intro position rest tokens apart runs
  obtain ⟨front, isKind, ran⟩ := scans position rest tokens apart runs
  exact ⟨front, better front isKind, ran⟩

theorem Scans.followed (scans : Scans chars kind) (apart : Apart chars more)
    (others : Scans more fun tokens => ∀ front, kind front → good (front ++ tokens)) :
    Scans (chars ++ more) good := by
  intro position rest tokens ended runs
  rw [Position.after_append] at runs
  obtain ⟨later, together, ran⟩ := others _ rest tokens ended.of_append runs
  have between : Apart chars (more ++ rest) := by
    cases more with
    | nil => rwa [List.append_nil] at ended
    | cons => exact apart
  obtain ⟨front, isKind, whole⟩ := scans position _ _ between ran
  rw [List.append_assoc]
  exact ⟨front ++ later, together front isKind, by rw [whole, List.append_assoc]⟩

theorem scans_lexeme (writable : lexeme.Writable) :
    Scans lexeme.written fun tokens => ∃ position, tokens = [⟨lexeme, position⟩] := by
  intro position rest tokens apart runs
  exact ⟨_, ⟨position, rfl⟩, run_lexeme writable apart runs⟩

theorem Scans.behind (writable : lexeme.Writable) (apart : Apart lexeme.written more)
    (scans : Scans more fun tokens => ∀ position, good (⟨lexeme, position⟩ :: tokens)) :
    Scans (lexeme.written ++ more) good := by
  apply (scans_lexeme writable).followed apart
  apply scans.imp
  rintro tokens each front ⟨position, rfl⟩
  exact each position

theorem Scans.behind_sign (writable : lexeme.Writable) (sign : ∀ text, lexeme ≠ .word text)
    (scans : Scans more fun tokens => ∀ position, good (⟨lexeme, position⟩ :: tokens)) :
    Scans (lexeme.written ++ more) good :=
  scans.behind writable (apart_of_sign sign)

theorem Scans.behind_blank (blank : isBlank char = true) (scans : Scans more good) :
    Scans (char :: more) good := by
  intro position rest tokens apart runs
  have further : Apart more rest := by
    rw [← List.singleton_append] at apart
    exact apart.of_append
  obtain ⟨front, isGood, ran⟩ := scans _ rest tokens further runs
  refine ⟨front, isGood, run_silent ?_ ran⟩
  simp [Scan.step, begin, blank]

/-- A lexeme with a blank after it, which keeps it apart from everything else. -/
theorem Scans.behind_spaced (writable : lexeme.Writable)
    (scans : Scans more fun tokens => ∀ position, good (⟨lexeme, position⟩ :: tokens)) :
    Scans (lexeme.written ++ ' ' :: more) good := by
  apply Scans.behind writable (apart_of_head (by simp [isWordChar]))
  exact scans.behind_blank (by decide)

theorem Scans.tokenize (scans : Scans chars kind) {ending : List Char} (gap : IsGap ending) :
    ∃ tokens, kind tokens ∧ Language.tokenize (String.ofList (chars ++ ending)) = .ok tokens := by
  have ends : ∀ position, Scan.between.run position ending = .ok [] := by
    intro position
    rw [← List.append_nil ending]
    exact run_gap gap rfl
  obtain ⟨tokens, isKind, ran⟩ := scans .start ending [] (apart_of_head gap.ends) (ends _)
  rw [List.append_nil] at ran
  rw [Language.tokenize, String.toList_ofList]
  exact ⟨tokens, isKind, ran⟩

end Building

/-- Texts with a separator between them: the first, and each other one behind the separator. -/
theorem toList_intercalate (separator first : String) (texts : List String) :
    (separator.intercalate (first :: texts)).toList =
      first.toList ++ texts.flatMap fun text => separator.toList ++ text.toList := by
  induction texts generalizing first with
  | nil => simp
  | cons second texts induction =>
      rw [String.intercalate_cons_cons, String.toList_append, String.toList_append, induction,
        List.flatMap_cons, List.append_assoc]
      simp

namespace Chain

def separator : Chain → String
  | conjunction => " AND "
  | disjunction => " OR "

def tail (chain : Chain) (texts : List (List Char)) : List Char :=
  texts.flatMap fun text => chain.separator.toList ++ text

variable (chain : Chain) {nesting : Nat} {tokens : List Token} {expr : Expr}
  {first : Operand} {others : List Operand}

theorem derives_operand (derived : Derives .unary nesting tokens expr) :
    Derives chain.operand nesting tokens expr := by
  cases chain with
  | conjunction => exact derived
  | disjunction => exact derived.conjunction

theorem derives (each : ∀ operand ∈ first :: others,
      Derives chain.operand nesting operand.1 operand.2)
    (repeated : Repeated chain.keyword (others.map Prod.fst) tokens) :
    Derives .disjunction nesting (first.1 ++ tokens)
      (Expr.balanced chain.join first.2 (others.map Prod.snd)) := by
  have folded := folded_balanced chain.join first.2 (others.map Prod.snd)
  cases chain with
  | conjunction => exact (Derives.and each repeated folded).disjunction
  | disjunction => exact .or each repeated folded

/-- A keyword between blanks, and what comes after it. -/
theorem scans_separator {more : List Char} {kind : List Token → Prop}
    (scans : Scans more fun tokens => ∀ word, IsKeyword chain.keyword word → kind (word :: tokens)) :
    Scans (chain.separator.toList ++ more) kind := by
  have written : ∃ word, sameWord word chain.keyword = true ∧ (Lexeme.word word).Writable ∧
      chain.separator.toList ++ more = ' ' :: ((Lexeme.word word).written ++ ' ' :: more) := by
    cases chain with
    | conjunction => exact ⟨"AND", by decide, writable_word (by decide), rfl⟩
    | disjunction => exact ⟨"OR", by decide, writable_word (by decide), rfl⟩
  obtain ⟨word, same, writable, split⟩ := written
  rw [split]
  apply Scans.behind_blank (by decide)
  apply Scans.behind_spaced writable
  exact scans.imp fun tokens each position => each _ (.word same)

theorem apart_tail (front : List Char) (texts : List (List Char)) :
    Apart front (chain.tail texts) := by
  apply apart_of_head
  cases texts with
  | nil => simp [tail]
  | cons text texts => cases chain <;> simp [tail, separator, isWordChar]

/-- The passages of operands, each behind the keyword. -/
theorem scans_tail {operands : List (List Char × Expr)}
    (each : ∀ operand ∈ operands, Scans operand.1 fun tokens =>
      Derives chain.operand nesting tokens operand.2) :
    Scans (chain.tail (operands.map Prod.fst)) fun tokens => ∃ others : List Operand,
      others.map Prod.snd = operands.map Prod.snd ∧
        (∀ operand ∈ others, Derives chain.operand nesting operand.1 operand.2) ∧
          Repeated chain.keyword (others.map Prod.fst) tokens := by
  induction operands with
  | nil => exact scans_nil ⟨[], rfl, by simp, .nil⟩
  | cons operand operands induction =>
      obtain ⟨scans, each⟩ := List.forall_mem_cons.mp each
      have split : chain.tail ((operand :: operands).map Prod.fst) =
          chain.separator.toList ++ (operand.1 ++ chain.tail (operands.map Prod.fst)) := by
        simp [tail]
      rw [split]
      apply chain.scans_separator
      apply scans.followed (chain.apart_tail _ _)
      apply (induction each).imp
      rintro tokens ⟨others, exprs, derived, repeated⟩ front first word spelled
      refine ⟨(front, operand.2) :: others, ?_, ?_, .cons spelled repeated⟩
      · rw [List.map_cons, List.map_cons, exprs]
      · exact List.forall_mem_cons.mpr ⟨first, derived⟩

/-- The passage of a chain in parentheses. -/
theorem scans_enclosed {head : List Char × Expr} {operands : List (List Char × Expr)}
    (each : ∀ operand ∈ head :: operands, Scans operand.1 fun tokens =>
      Derives .unary nesting tokens operand.2) :
    Scans ('(' :: (head.1 ++ chain.tail (operands.map Prod.fst) ++ [')'])) fun tokens =>
      Derives .unary (nesting + 1) tokens
        (Expr.balanced chain.join head.2 (operands.map Prod.snd)) := by
  have operand : ∀ operand ∈ head :: operands, Scans operand.1 fun tokens =>
      Derives chain.operand nesting tokens operand.2 := fun operand inside =>
    (each operand inside).imp fun _ => chain.derives_operand
  obtain ⟨scans, later⟩ := List.forall_mem_cons.mp operand
  have inner : Scans (head.1 ++ chain.tail (operands.map Prod.fst)) fun tokens =>
      Derives .disjunction nesting tokens
        (Expr.balanced chain.join head.2 (operands.map Prod.snd)) := by
    apply scans.followed (chain.apart_tail _ _)
    apply (chain.scans_tail later).imp
    rintro tokens ⟨others, exprs, derived, repeated⟩ front first
    rw [← exprs]
    have all : ∀ operand ∈ (front, head.2) :: others,
        Derives chain.operand nesting operand.1 operand.2 :=
      List.forall_mem_cons.mpr ⟨first, derived⟩
    exact chain.derives all repeated
  have closed : Scans (head.1 ++ chain.tail (operands.map Prod.fst) ++
      (Lexeme.closeParen.written ++ [])) fun tokens => ∀ opening, Derives .unary (nesting + 1)
        (⟨.openParen, opening⟩ :: tokens)
          (Expr.balanced chain.join head.2 (operands.map Prod.snd)) := by
    apply inner.followed (apart_before_sign (by simp))
    apply Scans.behind_sign .closeParen (by simp)
    exact scans_nil fun closing front derived opening => .primary (.parens derived)
  exact closed.behind_sign .openParen (by simp)

end Chain

end TagPolicy.Language
