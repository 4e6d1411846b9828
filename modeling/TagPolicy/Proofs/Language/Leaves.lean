import TagPolicy.Language.Parser
import TagPolicy.Proofs.Language.Grammar
import TagPolicy.Proofs.Outcome

/-!
What the readers of keywords, values, names and leaves accept. Each of them takes exactly one item of
the grammar off the front of the tokens, whatever comes after it.
-/

namespace TagPolicy.Text

theorem same_word_congr {word keyword : String} (same : sameWord word keyword = true)
    (other : String) : sameWord word other = sameWord keyword other := by
  simp only [sameWord, beq_iff_eq] at same ⊢
  rw [same]

theorem WritesInt.head {chars : List Char} {value : Int} (writes : WritesInt chars value) :
    ∃ first rest, chars = first :: rest ∧ lowerAscii first ≤ '9' := by
  cases writes with
  | unsigned present each =>
      cases chars with
      | nil => exact absurd rfl present
      | cons first rest =>
          have digit := (each first List.mem_cons_self).2
          have notUpper : ¬ ('A' ≤ first ∧ first ≤ 'Z') := by
            intro upper
            exact absurd (Char.le_trans upper.1 digit) (by decide)
          refine ⟨first, rest, rfl, ?_⟩
          rw [lowerAscii, if_neg notUpper]
          exact digit
  | plus => exact ⟨_, _, rfl, by decide⟩
  | minus => exact ⟨_, _, rfl, by decide⟩

/-- A word that spells a keyword denotes no integer. -/
theorem not_writes_int_of_same_word {word keyword : String} {initial : Char} {value : Int}
    (same : sameWord word keyword = true)
    (starts : (lowerWord keyword).toList.head? = some initial) (letter : '9' < initial) :
    ¬ WritesInt word.toList value := by
  intro writes
  obtain ⟨first, rest, chars, low⟩ := writes.head
  have spelled : lowerWord word = lowerWord keyword := by simpa [sameWord] using same
  rw [← spelled, lowerWord, String.toList_ofList, chars] at starts
  cases starts
  exact Char.not_lt.mpr low letter

end TagPolicy.Text

namespace TagPolicy.Language

open Grammar
open Outcome (bind_eq_ok pure_eq_ok)
open Text (Position WritesInt sameWord same_word_congr int64_eq_some not_writes_int_of_same_word)

section Keywords

variable {keyword : String} {token : Token} {tokens rest : List Token}

theorem is_keyword_word {word : String} {position : Position} :
    IsKeyword keyword ⟨.word word, position⟩ ↔ sameWord word keyword = true := by
  constructor
  · intro spelled
    cases spelled with
    | word same => exact same
  · exact .word

theorem Grammar.IsKeyword.next (spelled : IsKeyword keyword token) (other : String) (rest : List Token) :
    nextIs other (token :: rest) = sameWord keyword other := by
  cases spelled with
  | word same => exact same_word_congr same other

theorem Grammar.IsKeyword.next_self (spelled : IsKeyword keyword token) (rest : List Token) :
    nextIs keyword (token :: rest) = true := by
  rw [spelled.next]
  simp [sameWord]

theorem is_keyword_of_next (next : nextIs keyword tokens = true) :
    ∃ token rest, tokens = token :: rest ∧ IsKeyword keyword token := by
  unfold nextIs at next
  split at next
  · exact ⟨_, _, rfl, .word next⟩
  · cases next

end Keywords

section Values

variable {scope : Scope} {tokens rest : List Token}

theorem value_of_word_eq_some {word : String} {value : Value} {position : Position} :
    valueOfWord? word = some value ↔ IsValue value ⟨.word word, position⟩ := by
  constructor
  · intro denoted
    unfold valueOfWord? at denoted
    split at denoted
    · rename_i number read
      cases denoted
      exact .integer (int64_eq_some.mp read)
    · split at denoted
      · cases denoted
        exact .true (.word ‹_›)
      · split at denoted
        · cases denoted
          exact .false (.word ‹_›)
        · cases denoted
  · intro denoted
    -- a truth value is tried last, so no integer may be spelled like one
    have noInteger : ∀ keyword initial, sameWord word keyword = true →
        (Text.lowerWord keyword).toList.head? = some initial → '9' < initial →
          Text.int64? word = none := by
      intro keyword initial same starts letter
      rw [Option.eq_none_iff_forall_ne_some]
      intro number read
      exact not_writes_int_of_same_word same starts letter (int64_eq_some.mp read)
    cases denoted with
    | integer writes =>
        rw [valueOfWord?, int64_eq_some.mpr writes]
    | true spelled =>
        have same := is_keyword_word.mp spelled
        rw [valueOfWord?, noInteger "true" 't' same (by decide) (by decide)]
        simp [same]
    | false spelled =>
        have same := is_keyword_word.mp spelled
        have other : sameWord word "true" = false := by
          rw [same_word_congr same]
          decide
        rw [valueOfWord?, noInteger "false" 'f' same (by decide) (by decide)]
        simp [same, other]

theorem read_value_eq_ok {value : Value} :
    readValue scope tokens = .ok (value, rest) ↔
      ∃ token, tokens = token :: rest ∧ IsValue value token := by
  constructor
  · intro read
    unfold readValue at read
    split at read
    · cases read
      exact ⟨_, rfl, .text⟩
    · split at read
      · cases read
        exact ⟨_, rfl, value_of_word_eq_some.mp ‹_›⟩
      · cases read
    · cases read
  · rintro ⟨⟨lexeme, position⟩, rfl, denoted⟩
    have word : ∀ word, lexeme = .word word →
        readValue scope (⟨lexeme, position⟩ :: rest) = .ok (value, rest) := by
      rintro word rfl
      rw [readValue, value_of_word_eq_some.mpr denoted]
    cases denoted with
    | text => rfl
    | integer => exact word _ rfl
    | true spelled =>
        cases spelled
        exact word _ rfl
    | false spelled =>
        cases spelled
        exact word _ rfl

theorem read_closing_eq_ok {α : Type} {item result : α} :
    readClosing scope item tokens = .ok (result, rest) ↔
      result = item ∧ ∃ position, tokens = ⟨.closeParen, position⟩ :: rest := by
  constructor
  · intro read
    unfold readClosing at read
    split at read
    · cases read
      exact ⟨rfl, _, rfl⟩
    · cases read
  · rintro ⟨rfl, position, rfl⟩
    rfl

theorem read_name_eq_ok {name : String} :
    readName scope tokens = .ok (name, rest) ↔
      ∃ token closing, tokens = token :: ⟨.closeParen, closing⟩ :: rest ∧ IsName name token := by
  constructor
  · intro read
    unfold readName at read
    split at read
    · split at read
      · cases read
      · obtain ⟨rfl, closing, rfl⟩ := read_closing_eq_ok.mp read
        exact ⟨_, closing, rfl, .word ‹_›⟩
    · split at read
      · cases read
      · obtain ⟨rfl, closing, rfl⟩ := read_closing_eq_ok.mp read
        exact ⟨_, closing, rfl, .quoted ‹_›⟩
    · cases read
  · rintro ⟨token, closing, rfl, named⟩
    cases named with
    | word present =>
        rw [readName, if_neg present]
        exact read_closing_eq_ok.mpr ⟨rfl, closing, rfl⟩
    | quoted present =>
        rw [readName, if_neg present]
        exact read_closing_eq_ok.mpr ⟨rfl, closing, rfl⟩

theorem read_comparison_eq_ok {start : Position} {name : String} {expr : Expr} :
    readComparison scope start name tokens = .ok (expr, rest) ↔
      ∃ operator operand comparison value, tokens = operator :: operand :: rest ∧
        IsComparison comparison operator ∧ IsValue value operand ∧
          expr = .attr name comparison value := by
  constructor
  · intro read
    unfold readComparison at read
    split at read
    · obtain ⟨⟨value, after⟩, readOperand, finished⟩ := bind_eq_ok.mp read
      cases pure_eq_ok.mp finished
      obtain ⟨operand, rfl, denoted⟩ := read_value_eq_ok.mp readOperand
      exact ⟨_, operand, .equal, value, rfl, .equal, denoted, rfl⟩
    · obtain ⟨⟨value, after⟩, readOperand, finished⟩ := bind_eq_ok.mp read
      cases pure_eq_ok.mp finished
      obtain ⟨operand, rfl, denoted⟩ := read_value_eq_ok.mp readOperand
      exact ⟨_, operand, .unequal, value, rfl, .unequal, denoted, rfl⟩
    · cases read
  · rintro ⟨operator, operand, comparison, value, rfl, compared, denoted, rfl⟩
    have readOperand : readValue scope (operand :: rest) = .ok (value, rest) :=
      read_value_eq_ok.mpr ⟨operand, rfl, denoted⟩
    cases compared with
    | equal => rw [readComparison, readOperand]; rfl
    | unequal => rw [readComparison, readOperand]; rfl

end Values

section Leaves

variable {scope : Scope} {tokens rest : List Token} {expr : Expr}

def Expr.Resolved (defined : List String) (expr : Expr) : Prop :=
  ∀ name ∈ expr.references, name ∈ defined

theorem Expr.resolved_of_no_reference {defined : List String} (none : expr.references = []) :
    expr.Resolved defined := by
  intro name inside
  rw [none] at inside
  cases inside

theorem leaf_of_read_word {word : String} {start : Position}
    (read : readWord scope word start tokens = .ok (expr, rest)) :
    ∃ front, ⟨.word word, start⟩ :: tokens = front ++ rest ∧ Leaf front expr ∧
      expr.references = [] := by
  unfold readWord at read
  split at read
  · cases read
    exact ⟨[_], rfl, .true (.word ‹_›), rfl⟩
  · split at read
    · cases read
      exact ⟨[_], rfl, .false (.word ‹_›), rfl⟩
    · split at read
      · rename_i opening inside
        split at read
        · rename_i function
          obtain ⟨⟨name, after⟩, readArgument, finished⟩ := bind_eq_ok.mp read
          cases pure_eq_ok.mp finished
          obtain ⟨named, closing, rfl, is⟩ := read_name_eq_ok.mp readArgument
          exact ⟨[_, _, _, _], rfl, .call (.word function) is, rfl⟩
        · split at read
          · rename_i function
            obtain ⟨⟨name, after⟩, readArgument, compares⟩ := bind_eq_ok.mp read
            obtain ⟨operator, operand, comparison, value, rfl, compared, denoted, rfl⟩ :=
              read_comparison_eq_ok.mp compares
            obtain ⟨named, closing, rfl, is⟩ := read_name_eq_ok.mp readArgument
            exact ⟨[_, _, _, _, _, _], rfl, .attr (.word function) is compared denoted, rfl⟩
          · cases read
      · cases read

/-- Words of different keywords are told apart. -/
theorem read_word_call {word keyword : String} (same : sameWord word keyword = true)
    (notTrue : sameWord keyword "true" = false) (notFalse : sameWord keyword "false" = false)
    {start opening : Position} :
    readWord scope word start (⟨.openParen, opening⟩ :: tokens) =
      if sameWord keyword "tag" then do
        let (name, rest) ← readName scope tokens
        pure (.tag name, rest)
      else if sameWord keyword "attr" then do
        let (name, rest) ← readName scope tokens
        readComparison scope start name rest
      else .error ⟨start, .unknownFunction word⟩ := by
  simp only [readWord, same_word_congr same, notTrue, notFalse, Bool.false_eq_true, if_false]

theorem read_leaf_eq_ok :
    readLeaf scope tokens = .ok (expr, rest) ↔
      ∃ front, tokens = front ++ rest ∧ Leaf front expr ∧ expr.Resolved scope.defined := by
  constructor
  · intro read
    unfold readLeaf at read
    split at read
    · cases read
    · cases read
      exact ⟨[_], rfl, .braced, Expr.resolved_of_no_reference rfl⟩
    · split at read
      · rename_i known
        cases read
        refine ⟨[_], rfl, .reference, ?_⟩
        intro name inside
        cases List.mem_singleton.mp inside
        exact known
      · cases read
    · obtain ⟨front, split, leaf, none⟩ := leaf_of_read_word read
      exact ⟨front, split, leaf, Expr.resolved_of_no_reference none⟩
    · cases read
  · rintro ⟨front, rfl, leaf, resolved⟩
    cases leaf with
    | true spelled =>
        cases spelled with
        | word same =>
            change readWord scope _ _ rest = _
            unfold readWord
            rw [if_pos same]
    | false spelled =>
        cases spelled with
        | word same =>
            have other : sameWord "false" "true" = false := by decide
            change readWord scope _ _ rest = _
            unfold readWord
            rw [same_word_congr same, other, if_neg Bool.false_ne_true, if_pos same]
    | call spelled is =>
        cases spelled with
        | word same =>
            change readWord scope _ _ (⟨.openParen, _⟩ :: _) = _
            rw [read_word_call same (by decide) (by decide), if_pos (by decide)]
            exact bind_eq_ok.mpr ⟨_, read_name_eq_ok.mpr ⟨_, _, rfl, is⟩, rfl⟩
    | attr spelled is compared denoted =>
        cases spelled with
        | word same =>
            change readWord scope _ _ (⟨.openParen, _⟩ :: _) = _
            rw [read_word_call same (by decide) (by decide), if_neg (by decide),
              if_pos (by decide)]
            apply bind_eq_ok.mpr ⟨_, read_name_eq_ok.mpr ⟨_, _, rfl, is⟩, ?_⟩
            exact read_comparison_eq_ok.mpr ⟨_, _, _, _, rfl, compared, denoted, rfl⟩
    | braced => rfl
    | reference =>
        have known := resolved _ (List.mem_singleton.mpr rfl)
        simp [readLeaf, known]

end Leaves

end TagPolicy.Language
