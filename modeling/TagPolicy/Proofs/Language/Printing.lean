import TagPolicy.Language.Parser
import TagPolicy.Proofs.Outcome

/-!
Lexemes written out, with gaps between them, and scanned again. A gap is any mix of blanks and
comments. Where no gap between two lexemes is empty, the scanner gives the lexemes back, each at the
place where it was written.
-/

namespace TagPolicy.Language

open Outcome (bind_eq_ok pure_eq_ok)
open Text (Position isBlank)

def escaped (char : Char) : List Char :=
  if char = '"' ∨ char = '\\' then ['\\', char] else [char]

def Lexeme.written : Lexeme → List Char
  | word text => text.toList
  | quoted text => '"' :: (text.toList.flatMap escaped ++ ['"'])
  | braced name => Bracket.curly.opening :: (name.toList ++ [Bracket.curly.closing])
  | bracketed name => Bracket.square.opening :: (name.toList ++ [Bracket.square.closing])
  | openParen => ['(']
  | closeParen => [')']
  | equal => ['=', '=']
  | unequal => ['!', '=']

/-- A name that can stand between brackets and is not changed there. -/
structure Bracket.Holds (bracket : Bracket) (name : String) : Prop where
  present : name ≠ ""
  trimmed : Text.trim name = name
  closed : bracket.closing ∉ name.toList
  oneLine : '\n' ∉ name.toList

/-- What a lexeme has to be so that it can be written out. -/
inductive Lexeme.Writable : Lexeme → Prop
  | word {text : String} : text ≠ "" → (∀ char ∈ text.toList, isWordChar char = true) →
      Writable (.word text)
  | quoted {text : String} : Writable (.quoted text)
  | braced {name : String} : Bracket.curly.Holds name → Writable (.braced name)
  | bracketed {name : String} : Bracket.square.Holds name → Writable (.bracketed name)
  | openParen : Writable .openParen
  | closeParen : Writable .closeParen
  | equal : Writable .equal
  | unequal : Writable .unequal

/-- Blanks and comments in any order, where a comment ends with its line. -/
inductive IsGap : List Char → Prop
  | nil : IsGap []
  | blank {char : Char} {rest : List Char} : isBlank char = true → IsGap rest → IsGap (char :: rest)
  | comment {body rest : List Char} : '\n' ∉ body → IsGap rest →
      IsGap ('#' :: (body ++ '\n' :: rest))

/-- Lexemes written out, each with a gap after it; the gap of an index is the one behind that many
lexemes. -/
def spell (gap : Nat → List Char) (index : Nat) : List Lexeme → List Char
  | [] => []
  | lexeme :: rest => lexeme.written ++ gap index ++ spell gap (index + 1) rest

/-- The tokens of lexemes that are written out from a position on. -/
def placed (gap : Nat → List Char) (index : Nat) (position : Position) : List Lexeme → List Token
  | [] => []
  | lexeme :: rest =>
      ⟨lexeme, position⟩ ::
        placed gap (index + 1) (position.after (lexeme.written ++ gap index)) rest

section Layout

variable {gap : Nat → List Char} {index : Nat} {position : Position}

theorem spell_append (front back : List Lexeme) :
    spell gap index (front ++ back) =
      spell gap index front ++ spell gap (index + front.length) back := by
  induction front generalizing index with
  | nil => rfl
  | cons lexeme front induction =>
      simp only [List.cons_append, spell, induction, List.length_cons, List.append_assoc]
      rw [Nat.add_right_comm, Nat.add_assoc]

theorem placed_append (front back : List Lexeme) :
    placed gap index position (front ++ back) =
      placed gap index position front ++
        placed gap (index + front.length) (position.after (spell gap index front)) back := by
  induction front generalizing index position with
  | nil => rfl
  | cons lexeme front induction =>
      simp only [List.cons_append, placed, spell, induction, List.length_cons,
        Position.after_append]
      rw [Nat.add_right_comm, Nat.add_assoc]

end Layout

section Scanning

variable {scan next : Scan} {start position : Position} {char : Char}
  {chars rest seen : List Char} {emitted later tokens : List Token}

theorem run_cons (stepped : scan.step position char = .ok (next, emitted))
    (runs : next.run (position.next char) rest = .ok later) :
    scan.run position (char :: rest) = .ok (emitted ++ later) :=
  bind_eq_ok.mpr ⟨_, stepped, bind_eq_ok.mpr ⟨later, runs, rfl⟩⟩

/-- A step that completes no token. -/
theorem run_silent (stepped : scan.step position char = .ok (next, []))
    (runs : next.run (position.next char) rest = .ok later) :
    scan.run position (char :: rest) = .ok later :=
  run_cons stepped runs

theorem run_comment (oneLine : '\n' ∉ chars)
    (runs : Scan.between.run (position.after (chars ++ ['\n'])) rest = .ok tokens) :
    Scan.comment.run position (chars ++ '\n' :: rest) = .ok tokens := by
  induction chars generalizing position with
  | nil => exact run_silent rfl runs
  | cons char chars induction =>
      rw [List.mem_cons, not_or] at oneLine
      apply run_silent _ (induction oneLine.2 runs)
      simp [Scan.step, Ne.symm oneLine.1]

theorem run_gap {gap : List Char} (isGap : IsGap gap)
    (runs : Scan.between.run (position.after gap) rest = .ok tokens) :
    Scan.between.run position (gap ++ rest) = .ok tokens := by
  induction isGap generalizing position with
  | nil => exact runs
  | blank blank _ induction =>
      apply run_silent _ (induction runs)
      simp [Scan.step, begin, blank]
  | @comment body following oneLine _ induction =>
      rw [List.cons_append, List.append_assoc, List.cons_append]
      rw [Position.after_cons, List.append_cons, Position.after_append] at runs
      have begun : begin position '#' = .ok (.comment, []) := rfl
      exact run_silent begun (run_comment oneLine (induction runs))

theorem code_of_word_char (isWord : isWordChar char = true) :
    0x24 ≤ char.toNat ∧ char.toNat ≤ 0x7A := by
  delta isWordChar Char.isAlphanum Char.isAlpha Char.isUpper Char.isLower Char.isDigit at isWord
  simp only [Bool.or_eq_true, Bool.and_eq_true, decide_eq_true_eq, beq_iff_eq, ge_iff_le,
    UInt32.le_iff_toNat_le] at isWord
  change 0x24 ≤ char.val.toNat ∧ char.val.toNat ≤ 0x7A
  rcases isWord with ((((((letter | letter) | digit) | rfl) | rfl) | rfl) | rfl) | rfl
  · exact ⟨Nat.le_trans (by decide) letter.1, Nat.le_trans letter.2 (by decide)⟩
  · exact ⟨Nat.le_trans (by decide) letter.1, Nat.le_trans letter.2 (by decide)⟩
  · exact ⟨Nat.le_trans (by decide) digit.1, Nat.le_trans digit.2 (by decide)⟩
  all_goals decide

theorem not_blank_of_word_char (isWord : isWordChar char = true) : isBlank char = false := by
  obtain ⟨low, high⟩ := code_of_word_char isWord
  simp only [isBlank, Bool.or_eq_false_iff, Bool.and_eq_false_iff, decide_eq_false_iff_not,
    beq_eq_false_iff_ne]
  omega

theorem begin_of_word_char (isWord : isWordChar char = true) :
    begin position char = .ok (.word position [char], []) := by
  have other : ∀ special : Char, isWordChar special = false → char ≠ special := by
    rintro special noWord rfl
    rw [isWord] at noWord
    cases noWord
  simp [begin, not_blank_of_word_char isWord, isWord, other '#' (by decide), other '(' (by decide),
    other ')' (by decide), other '=' (by decide), other '!' (by decide),
    other Bracket.curly.opening (by decide), other Bracket.square.opening (by decide),
    other '"' (by decide)]

theorem IsGap.ends {gap : List Char} (isGap : IsGap gap) :
    ∀ char ∈ gap.head?, isWordChar char = false := by
  intro char first
  cases isGap with
  | nil => cases first
  | blank blank =>
      cases first
      apply Bool.eq_false_iff.mpr
      intro isWord
      rw [not_blank_of_word_char isWord] at blank
      cases blank
  | comment =>
      cases first
      decide

theorem run_word (isWord : ∀ char ∈ chars, isWordChar char = true)
    (ended : ∀ char ∈ rest.head?, isWordChar char = false)
    (runs : Scan.between.run (position.after chars) rest = .ok tokens) :
    (Scan.word start seen).run position (chars ++ rest) =
      .ok (wordToken start (chars.reverse ++ seen) :: tokens) := by
  induction chars generalizing position seen with
  | nil =>
      -- the character behind a word is taken for the next token, as if the word had not been there
      cases rest with
      | nil =>
          cases runs
          rfl
      | cons char rest =>
          have other : isWordChar char = false := ended char rfl
          obtain ⟨⟨next, emitted⟩, begun, continues⟩ := bind_eq_ok.mp runs
          obtain ⟨later, runsOn, finished⟩ := bind_eq_ok.mp continues
          cases pure_eq_ok.mp finished
          have stepped : (Scan.word start seen).step position char =
              .ok (next, wordToken start seen :: emitted) := by
            rw [Scan.step, other]
            exact bind_eq_ok.mpr ⟨_, begun, rfl⟩
          exact run_cons stepped runsOn
  | cons char chars induction =>
      obtain ⟨first, others⟩ := List.forall_mem_cons.mp isWord
      rw [List.reverse_cons, List.append_assoc]
      apply run_silent _ (induction others runs)
      simp [Scan.step, first]

theorem run_quoted
    (runs : Scan.between.run (position.after (chars.flatMap escaped ++ ['"'])) rest = .ok tokens) :
    (Scan.quoted start seen).run position (chars.flatMap escaped ++ '"' :: rest) =
      .ok (⟨.quoted (textOfSeen (chars.reverse ++ seen)), start⟩ :: tokens) := by
  induction chars generalizing position seen with
  | nil =>
      have stepped : (Scan.quoted start seen).step position '"' =
          .ok (.between, [⟨.quoted (textOfSeen seen), start⟩]) := rfl
      exact run_cons stepped runs
  | cons char chars induction =>
      rw [List.flatMap_cons, List.append_assoc, Position.after_append] at runs
      rw [List.reverse_cons, List.append_assoc, List.flatMap_cons, List.append_assoc]
      by_cases special : char = '"' ∨ char = '\\'
      · rw [escaped, if_pos special] at runs ⊢
        have escaping : (Scan.quoted start seen).step position '\\' =
            .ok (.escape start seen, []) := rfl
        exact run_silent escaping (run_silent rfl (induction runs))
      · rw [escaped, if_neg special] at runs ⊢
        rw [not_or] at special
        apply run_silent _ (induction runs)
        simp [Scan.step, special]

theorem run_name {bracket : Bracket} (closed : bracket.closing ∉ chars) (oneLine : '\n' ∉ chars)
    (present : Text.trim (textOfSeen (chars.reverse ++ seen)) ≠ "")
    (runs : Scan.between.run (position.after (chars ++ [bracket.closing])) rest = .ok tokens) :
    (Scan.name bracket start seen).run position (chars ++ bracket.closing :: rest) =
      .ok (⟨bracket.lexeme (Text.trim (textOfSeen (chars.reverse ++ seen))), start⟩ :: tokens) := by
  induction chars generalizing position seen with
  | nil =>
      have stepped : (Scan.name bracket start seen).step position bracket.closing =
          .ok (.between, [⟨bracket.lexeme (Text.trim (textOfSeen seen)), start⟩]) := by
        simpa [Scan.step] using present
      exact run_cons stepped runs
  | cons char chars induction =>
      rw [List.mem_cons, not_or] at closed oneLine
      rw [List.reverse_cons, List.append_assoc] at present ⊢
      apply run_silent _ (induction closed.2 oneLine.2 present runs)
      simp [Scan.step, Ne.symm closed.1, Ne.symm oneLine.1]

theorem run_bracket {bracket : Bracket} {name : String} (holds : bracket.Holds name)
    (runs : Scan.between.run (position.after (name.toList ++ [bracket.closing])) rest =
      .ok tokens) :
    (Scan.name bracket start []).run position (name.toList ++ bracket.closing :: rest) =
      .ok (⟨bracket.lexeme name, start⟩ :: tokens) := by
  have same : textOfSeen (name.toList.reverse ++ []) = name := by simp [textOfSeen]
  have kept : Text.trim (textOfSeen (name.toList.reverse ++ [])) = name := by
    rw [same, holds.trimmed]
  have present : Text.trim (textOfSeen (name.toList.reverse ++ [])) ≠ "" := by
    rw [kept]
    exact holds.present
  have whole : (Scan.name bracket start []).run position (name.toList ++ bracket.closing :: rest) = _ :=
    run_name holds.closed holds.oneLine present runs
  rwa [kept] at whole

/-- The first of some characters goes on with no word at the end of others. -/
def Apart (front back : List Char) : Prop :=
  ∀ last ∈ front.getLast?, isWordChar last = true → ∀ next ∈ back.head?, isWordChar next = false

/-- A lexeme is scanned as it was written, whatever comes after it but a word after a word. -/
theorem run_lexeme {lexeme : Lexeme} (writable : lexeme.Writable)
    (apart : Apart lexeme.written rest)
    (runs : Scan.between.run (position.after lexeme.written) rest = .ok tokens) :
    Scan.between.run position (lexeme.written ++ rest) = .ok (⟨lexeme, position⟩ :: tokens) := by
  cases writable with
  | @word text present isWord =>
      cases chars : text.toList with
      | nil => exact absurd (String.toList_eq_nil_iff.mp chars) present
      | cons first others =>
          rw [Lexeme.written, chars] at runs ⊢
          rw [chars] at isWord
          obtain ⟨isFirst, areOthers⟩ := List.forall_mem_cons.mp isWord
          have begun : Scan.between.step position first = .ok (.word position [first], []) :=
            begin_of_word_char isFirst
          have ended : ∀ char ∈ rest.head?, isWordChar char = false := by
            rw [Lexeme.written, chars] at apart
            have last := List.getLast?_eq_some_getLast (List.cons_ne_nil first others)
            exact apart _ last (isWord _ (List.getLast_mem _))
          have word := run_silent begun (run_word areOthers ended runs)
          have same : textOfSeen (others.reverse ++ [first]) = text := by
            rw [textOfSeen, ← List.reverse_cons, List.reverse_reverse, ← chars,
              String.ofList_toList]
          rwa [wordToken, same] at word
  | @quoted text =>
      have begun : Scan.between.step position '"' = .ok (.quoted position [], []) := rfl
      have whole := run_silent begun (run_quoted runs)
      rw [List.append_nil, textOfSeen, List.reverse_reverse, String.ofList_toList] at whole
      rw [Lexeme.written, List.cons_append, List.append_assoc]
      exact whole
  | braced holds =>
      have begun : Scan.between.step position Bracket.curly.opening =
          .ok (.name .curly position [], []) := rfl
      rw [Lexeme.written, List.cons_append, List.append_assoc]
      exact run_silent begun (run_bracket holds runs)
  | bracketed holds =>
      have begun : Scan.between.step position Bracket.square.opening =
          .ok (.name .square position [], []) := rfl
      rw [Lexeme.written, List.cons_append, List.append_assoc]
      exact run_silent begun (run_bracket holds runs)
  | openParen =>
      have begun : Scan.between.step position '(' = .ok (.between, [⟨.openParen, position⟩]) := rfl
      exact run_cons begun runs
  | closeParen =>
      have begun : Scan.between.step position ')' = .ok (.between, [⟨.closeParen, position⟩]) := rfl
      exact run_cons begun runs
  | equal =>
      have begun : Scan.between.step position '=' = .ok (.comparison position '=', []) := rfl
      have ends : (Scan.comparison position '=').step (position.next '=') '=' =
          .ok (.between, [⟨.equal, position⟩]) := rfl
      exact run_silent begun (run_cons ends runs)
  | unequal =>
      have begun : Scan.between.step position '!' = .ok (.comparison position '!', []) := rfl
      have ends : (Scan.comparison position '!').step (position.next '!') '=' =
          .ok (.between, [⟨.unequal, position⟩]) := rfl
      exact run_silent begun (run_cons ends runs)

end Scanning

section Lexemes

variable {gap : Nat → List Char} {index : Nat} {position : Position} {lexemes : List Lexeme}

/-- Every gap between two of the lexemes has a character. -/
def Parted (gap : Nat → List Char) (index count : Nat) : Prop :=
  ∀ inner, index ≤ inner → inner + 1 < index + count → gap inner ≠ []

theorem run_spell (gaps : ∀ index, IsGap (gap index)) (writable : ∀ lexeme ∈ lexemes, lexeme.Writable)
    (parted : Parted gap index lexemes.length) :
    Scan.between.run position (spell gap index lexemes) = .ok (placed gap index position lexemes) := by
  induction lexemes generalizing index position with
  | nil => rfl
  | cons lexeme rest induction =>
      obtain ⟨first, others⟩ := List.forall_mem_cons.mp writable
      rw [List.length_cons] at parted
      have partedRest : Parted gap (index + 1) rest.length := by
        intro inner after before
        exact parted inner (by omega) (by omega)
      -- only the last gap may be empty, and then nothing comes after the lexeme
      have ended : ∀ char ∈ (gap index ++ spell gap (index + 1) rest).head?,
          isWordChar char = false := by
        have ends := (gaps index).ends
        cases rest with
        | nil =>
            rw [spell, List.append_nil]
            exact ends
        | cons second rest =>
            have present : gap index ≠ [] :=
              parted index (Nat.le_refl _) (by rw [List.length_cons]; omega)
            rw [List.head?_append, Option.or_of_isSome (by simpa using present)]
            exact ends
      rw [spell, placed, List.append_assoc, Position.after_append]
      exact run_lexeme first (fun _ _ _ => ended) (run_gap (gaps index) (induction others partedRest))

end Lexemes

end TagPolicy.Language
