import TagPolicy.Proofs.Language.Printing
import TagPolicy.Proofs.Text.Trimming

/-!
What the scanner finds. Every token stands where its characters begin, and they spell it; where the
scanner gives up, it points at the character that it cannot take or at the sign that opens what has
no end. Both follow from what the scanner is in the middle of: the characters since its place spell
the beginning of a token.
-/

namespace TagPolicy.Language

open Outcome (bind_eq_ok ok_bind pure_eq_ok)
open Text (Position)

/-- The characters of a string between its marks, and the text that they stand for. -/
inductive StringBody : List Char → List Char → Prop
  | nil : StringBody [] []
  | plain {body text : List Char} {char : Char} :
      StringBody body text → char ≠ '"' → char ≠ '\\' → StringBody (body ++ [char]) (text ++ [char])
  | escaped {body text : List Char} {char : Char} :
      StringBody body text → StringBody (body ++ ['\\'] ++ [char]) (text ++ [char])

/-- The characters that a lexeme may be written with. -/
inductive Lexeme.Spelled : Lexeme → List Char → Prop
  | word {chars : List Char} :
      chars ≠ [] → (∀ char ∈ chars, isWordChar char = true) →
        Spelled (.word (String.ofList chars)) chars
  | quoted {body text : List Char} :
      StringBody body text → Spelled (.quoted (String.ofList text)) ('"' :: body ++ ['"'])
  /-- A name without the blanks around it. -/
  | name {bracket : Bracket} {inner : List Char} :
      bracket.closing ∉ inner → '\n' ∉ inner → Text.trim (String.ofList inner) ≠ "" →
        Spelled (bracket.lexeme (Text.trim (String.ofList inner)))
          (bracket.opening :: inner ++ [bracket.closing])
  | openParen : Spelled .openParen ['(']
  | closeParen : Spelled .closeParen [')']
  | equal : Spelled .equal ['=', '=']
  | unequal : Spelled .unequal ['!', '=']

/-- Among the characters are those of the token, and its position is the place where they begin. -/
def Token.Stands (chars : List Char) (token : Token) : Prop :=
  ∃ front spelled back, chars = front ++ spelled ++ back ∧ token.lexeme.Spelled spelled ∧
    token.position = Position.start.after front

/-- The characters that begin a token or stand between tokens. -/
def mayBegin (char : Char) : Bool :=
  Text.isBlank char || isWordChar char || ['#', '(', ')', '=', '!', '\x7b', '[', '"'].contains char

/-- Why a character is rejected, where some characters follow it. -/
inductive Rejects : Cause → Char → List Char → Prop
  | stray {char : Char} {back : List Char} :
      mayBegin char = false → Rejects (.strayCharacter char) char back
  | half {char : Char} {back : List Char} :
      char = '=' ∨ char = '!' → back.head? ≠ some '=' → Rejects (.halfComparison char) char back
  | unclosed {bracket : Bracket} {back : List Char} :
      bracket.closing ∉ back.takeWhile (· ≠ '\n') →
        Rejects (.unterminatedName bracket) bracket.opening back
  | empty {bracket : Bracket} {inner back : List Char} :
      bracket.closing ∉ inner → '\n' ∉ inner → Text.trim (String.ofList inner) = "" →
        Rejects (.emptyName bracket) bracket.opening (inner ++ bracket.closing :: back)
  | endless {body text : List Char} : StringBody body text → Rejects .unterminatedString '"' body
  | cutOff {body text : List Char} :
      StringBody body text → Rejects .unterminatedString '"' (body ++ ['\\'])

/-- Among the characters is one that is rejected, and the error is reported at its place. -/
def SourceError.Rejected (chars : List Char) (error : SourceError) : Prop :=
  ∃ front char back, chars = front ++ char :: back ∧ Rejects error.cause char back ∧
    error.position = Position.start.after front

/-- The last of the characters read, from a place on. -/
def Begun (read chars : List Char) (place : Position) : Prop :=
  ∃ front, read = front ++ chars ∧ place = Position.start.after front

/-- What the characters read so far say of what the scanner is in the middle of. -/
def Scan.Amid (read : List Char) : Scan → Prop
  | between | comment => True
  | word start seen =>
      Begun read seen.reverse start ∧ seen ≠ [] ∧ ∀ char ∈ seen, isWordChar char = true
  | name bracket start seen =>
      Begun read (bracket.opening :: seen.reverse) start ∧ bracket.closing ∉ seen ∧ '\n' ∉ seen
  | quoted start seen => ∃ body, Begun read ('"' :: body) start ∧ StringBody body seen.reverse
  | escape start seen =>
      ∃ body, Begun read ('"' :: body ++ ['\\']) start ∧ StringBody body seen.reverse
  | comparison start first => Begun read [first] start ∧ (first = '=' ∨ first = '!')

section Parts

variable {read chars more : List Char} {place : Position} {char : Char} {lexeme : Lexeme}
  {token : Token}

theorem Begun.further (begun : Begun read chars place) (char : Char) :
    Begun (read ++ [char]) (chars ++ [char]) place := by
  obtain ⟨front, rfl, rfl⟩ := begun
  exact ⟨front, List.append_assoc .., rfl⟩

theorem begun_here (read : List Char) (char : Char) :
    Begun (read ++ [char]) [char] (Position.start.after read) := ⟨read, rfl, rfl⟩

theorem Begun.stands (begun : Begun read chars place) (spelled : lexeme.Spelled chars) :
    Token.Stands read ⟨lexeme, place⟩ := by
  obtain ⟨front, rfl, rfl⟩ := begun
  exact ⟨front, chars, [], (List.append_nil _).symm, spelled, rfl⟩

theorem Token.Stands.further (stands : token.Stands read) (more : List Char) :
    token.Stands (read ++ more) := by
  obtain ⟨front, spelled, back, rfl, isSpelled, placed⟩ := stands
  exact ⟨front, spelled, back ++ more, List.append_assoc .., isSpelled, placed⟩

theorem Begun.rejected {cause : Cause} (begun : Begun read (char :: chars) place)
    (rejects : Rejects cause char (chars ++ more)) :
    SourceError.Rejected (read ++ more) ⟨place, cause⟩ := by
  obtain ⟨front, rfl, rfl⟩ := begun
  exact ⟨front, char, chars ++ more, by simp, rejects, rfl⟩

end Parts

section Steps

variable {read rest : List Char} {char : Char} {scan next : Scan} {tokens : List Token}
  {error : SourceError}

/-- What is known after a step: of what the scanner is then in the middle of, and of its tokens. -/
def Found (read : List Char) (found : Scan × List Token) : Prop :=
  found.1.Amid read ∧ ∀ token ∈ found.2, token.Stands read

theorem found_silent (amid : next.Amid read) : Found read (next, []) := ⟨amid, by simp⟩

theorem found_token {token : Token} (stands : token.Stands read) : Found read (.between, [token]) :=
  ⟨trivial, by simpa using stands⟩

theorem found_begin (begun : begin (Position.start.after read) char = .ok (next, tokens)) :
    Found (read ++ [char]) (next, tokens) := by
  have here := begun_here read char
  unfold begin at begun
  split at begun
  · cases begun
    exact found_silent trivial
  split at begun
  · cases begun
    exact found_silent trivial
  split at begun
  · cases begun
    subst char
    exact found_token (here.stands .openParen)
  split at begun
  · cases begun
    subst char
    exact found_token (here.stands .closeParen)
  split at begun
  · cases begun
    exact found_silent ⟨here, ‹_›⟩
  split at begun
  · cases begun
    subst char
    exact found_silent ⟨here, by simp, by simp⟩
  split at begun
  · cases begun
    subst char
    exact found_silent ⟨here, by simp, by simp⟩
  split at begun
  · cases begun
    subst char
    exact found_silent ⟨[], here, .nil⟩
  split at begun
  · cases begun
    exact found_silent ⟨here, by simp, by simpa⟩
  · cases begun

theorem rejected_begin (refused : begin (Position.start.after read) char = .error error) :
    error.Rejected (read ++ char :: rest) := by
  unfold begin at refused
  repeat' split at refused
  all_goals cases refused
  have stray : mayBegin char = false := by
    simp_all [mayBegin, Bracket.opening]
  exact ⟨read, char, rest, rfl, .stray stray, rfl⟩

/-- One step keeps what is known: by cases of what the scanner was in the middle of. -/
theorem Scan.Amid.step (amid : scan.Amid read)
    (stepped : scan.step (Position.start.after read) char = .ok (next, tokens)) :
    Found (read ++ [char]) (next, tokens) := by
  cases scan with
  | between => exact found_begin stepped
  | comment =>
      cases stepped
      apply found_silent
      split <;> trivial
  | word start seen =>
      obtain ⟨begun, present, each⟩ := amid
      rw [Scan.step] at stepped
      split at stepped
      · cases stepped
        apply found_silent
        refine ⟨?_, by simp, by simpa using ⟨‹_›, each⟩⟩
        simpa using begun.further char
      · obtain ⟨⟨following, found⟩, first, finished⟩ := bind_eq_ok.mp stepped
        cases pure_eq_ok.mp finished
        obtain ⟨later, others⟩ := found_begin first
        have word : Token.Stands read (wordToken start seen) :=
          begun.stands (.word (by simpa using present) (by simpa using each))
        exact ⟨later, List.forall_mem_cons.mpr ⟨word.further [char], others⟩⟩
  | name bracket start seen =>
      obtain ⟨begun, unclosed, oneLine⟩ := amid
      rw [Scan.step] at stepped
      split at stepped
      · subst char
        dsimp only at stepped
        split at stepped
        · cases stepped
        · cases stepped
          apply found_token
          apply (begun.further bracket.closing).stands
          exact .name (by simpa using unclosed) (by simpa using oneLine) ‹_›
      · split at stepped
        · cases stepped
        · cases stepped
          apply found_silent
          refine ⟨?_, ?_, ?_⟩
          · simpa using begun.further char
          · simp [unclosed, Ne.symm ‹¬char = bracket.closing›]
          · simp [oneLine, Ne.symm ‹¬char = '\n'›]
  | quoted start seen =>
      obtain ⟨body, begun, isBody⟩ := amid
      rw [Scan.step] at stepped
      split at stepped
      · cases stepped
        subst char
        exact found_token ((begun.further '"').stands (.quoted isBody))
      · split at stepped
        · cases stepped
          subst char
          exact found_silent ⟨body, begun.further '\\', isBody⟩
        · cases stepped
          apply found_silent
          refine ⟨body ++ [char], begun.further char, ?_⟩
          rw [List.reverse_cons]
          exact .plain isBody ‹_› ‹_›
  | escape start seen =>
      obtain ⟨body, begun, isBody⟩ := amid
      cases stepped
      apply found_silent
      refine ⟨body ++ ['\\'] ++ [char], begun.further char, ?_⟩
      rw [List.reverse_cons]
      exact .escaped isBody
  | comparison start first =>
      obtain ⟨begun, sign⟩ := amid
      rw [Scan.step] at stepped
      split at stepped
      · cases stepped
        subst char
        apply found_token
        apply (begun.further '=').stands
        rcases sign with rfl | rfl
        · exact .equal
        · exact .unequal
      · cases stepped

/-- A name whose line or text ends before it is closed. -/
theorem rejects_unclosed {bracket : Bracket} {seen following : List Char}
    (unclosed : bracket.closing ∉ seen) (oneLine : '\n' ∉ seen)
    (ended : following.takeWhile (· ≠ '\n') = []) :
    Rejects (.unterminatedName bracket) bracket.opening (seen.reverse ++ following) := by
  have others : ∀ char ∈ seen.reverse, decide (char ≠ '\n') = true := by
    intro char inside
    apply decide_eq_true
    rintro rfl
    exact oneLine (List.mem_reverse.mp inside)
  apply Rejects.unclosed
  rw [List.takeWhile_append_of_pos others, ended, List.append_nil, List.mem_reverse]
  exact unclosed

/-- A step that fails points at the place of what the scanner was in the middle of, or at the
character itself. -/
theorem Scan.Amid.rejected_step (amid : scan.Amid read)
    (refused : scan.step (Position.start.after read) char = .error error) :
    error.Rejected (read ++ char :: rest) := by
  cases scan with
  | between => exact rejected_begin refused
  | comment => cases refused
  | word start seen =>
      rw [Scan.step] at refused
      split at refused
      · cases refused
      · cases begun : begin (Position.start.after read) char with
        | error fault =>
            rw [begun] at refused
            cases refused
            exact rejected_begin begun
        | ok found =>
            rw [begun] at refused
            cases refused
  | name bracket start seen =>
      obtain ⟨begun, unclosed, oneLine⟩ := amid
      rw [Scan.step] at refused
      split at refused
      · subst char
        dsimp only at refused
        split at refused
        · cases refused
          apply begun.rejected
          exact .empty (by simpa using unclosed) (by simpa using oneLine) ‹_›
        · cases refused
      · split at refused
        · cases refused
          subst char
          exact begun.rejected (rejects_unclosed unclosed oneLine (by simp))
        · cases refused
  | quoted start seen =>
      rw [Scan.step] at refused
      repeat' split at refused
      all_goals cases refused
  | escape start seen => cases refused
  | comparison start first =>
      obtain ⟨begun, sign⟩ := amid
      rw [Scan.step] at refused
      split at refused
      · cases refused
      · cases refused
        apply begun.rejected
        exact .half sign (by simpa using ‹_›)

theorem Scan.Amid.finish (amid : scan.Amid read) (finished : scan.finish = .ok tokens) :
    ∀ token ∈ tokens, token.Stands read := by
  cases scan with
  | between | comment =>
      cases finished
      simp
  | word start seen =>
      obtain ⟨begun, present, each⟩ := amid
      cases finished
      have word : Token.Stands read (wordToken start seen) :=
        begun.stands (.word (by simpa using present) (by simpa using each))
      simpa using word
  | _ => cases finished

theorem Scan.Amid.rejected_finish (amid : scan.Amid read) (refused : scan.finish = .error error) :
    error.Rejected read := by
  rw [← List.append_nil read]
  cases scan with
  | between | comment | word => cases refused
  | name bracket start seen =>
      obtain ⟨begun, unclosed, oneLine⟩ := amid
      cases refused
      exact begun.rejected (rejects_unclosed unclosed oneLine rfl)
  | quoted start seen =>
      obtain ⟨body, begun, isBody⟩ := amid
      cases refused
      apply begun.rejected
      rw [List.append_nil]
      exact .endless isBody
  | escape start seen =>
      obtain ⟨body, begun, isBody⟩ := amid
      cases refused
      apply begun.rejected
      rw [List.append_nil]
      exact .cutOff isBody
  | comparison start first =>
      obtain ⟨begun, sign⟩ := amid
      cases refused
      apply begun.rejected
      exact .half sign (by simp)

end Steps

section Runs

variable {read rest : List Char} {scan : Scan} {tokens : List Token} {error : SourceError}

theorem step_place (read : List Char) (char : Char) :
    Position.start.after (read ++ [char]) = (Position.start.after read).next char := by
  rw [Position.after_append, Position.after_cons, Position.after_nil]

/-- What the scanner gives for the rest of a text, by induction on it. -/
theorem Scan.Amid.run (amid : scan.Amid read)
    (ran : scan.run (Position.start.after read) rest = .ok tokens) :
    ∀ token ∈ tokens, token.Stands (read ++ rest) := by
  induction rest generalizing scan read tokens with
  | nil =>
      rw [List.append_nil]
      exact amid.finish ran
  | cons char rest induction =>
      obtain ⟨⟨next, emitted⟩, stepped, ran⟩ := bind_eq_ok.mp ran
      obtain ⟨later, runs, finished⟩ := bind_eq_ok.mp ran
      cases pure_eq_ok.mp finished
      obtain ⟨amidNext, found⟩ := amid.step stepped
      rw [← step_place] at runs
      have others := induction amidNext runs
      rw [List.append_assoc] at others
      rw [List.singleton_append] at others
      have first : ∀ token ∈ emitted, token.Stands (read ++ char :: rest) := by
        intro token inside
        rw [← List.singleton_append, ← List.append_assoc]
        exact (found token inside).further rest
      exact List.forall_mem_append.mpr ⟨first, others⟩

theorem Scan.Amid.rejected_run (amid : scan.Amid read)
    (refused : scan.run (Position.start.after read) rest = .error error) :
    error.Rejected (read ++ rest) := by
  induction rest generalizing scan read with
  | nil =>
      rw [List.append_nil]
      exact amid.rejected_finish refused
  | cons char rest induction =>
      rw [Scan.run] at refused
      cases stepped : scan.step (Position.start.after read) char with
      | error fault =>
          rw [stepped] at refused
          cases refused
          exact amid.rejected_step stepped
      | ok found =>
          obtain ⟨next, emitted⟩ := found
          rw [stepped, ok_bind] at refused
          cases runs : next.run ((Position.start.after read).next char) rest with
          | ok later =>
              dsimp only at refused
              rw [runs] at refused
              cases refused
          | error fault =>
              dsimp only at refused
              rw [runs] at refused
              cases refused
              rw [← step_place] at runs
              have later := induction (amid.step stepped).1 runs
              rwa [List.append_assoc] at later

theorem amid_between : Scan.between.Amid [] := trivial

theorem stands_of_tokenize {text : String} (scanned : tokenize text = .ok tokens) :
    ∀ token ∈ tokens, token.Stands text.toList :=
  amid_between.run scanned

theorem rejected_of_tokenize {text : String} (refused : tokenize text = .error error) :
    error.Rejected text.toList :=
  amid_between.rejected_run refused

end Runs

section Names

variable {bracket : Bracket} {chars inner : List Char} {name : String} {position : Position}

/-- A name that was found between brackets can stand between them as it is. -/
theorem holds_trim (closed : bracket.closing ∉ inner) (oneLine : '\n' ∉ inner)
    (present : Text.trim (String.ofList inner) ≠ "") :
    bracket.Holds (Text.trim (String.ofList inner)) where
  present := present
  trimmed := Text.trim_trim _
  closed inside := closed (Text.mem_of_mem_trim inside)
  oneLine inside := oneLine (Text.mem_of_mem_trim inside)

theorem holds_of_stands (stands : Token.Stands chars ⟨.bracketed name, position⟩) :
    Bracket.square.Holds name := by
  obtain ⟨front, spelled, back, -, isSpelled, -⟩ := stands
  generalize same : Lexeme.bracketed name = lexeme at isSpelled
  cases isSpelled with
  | @name bracket inner closed oneLine present =>
      cases bracket with
      | curly => cases same
      | square =>
          cases same
          exact holds_trim closed oneLine present
  | _ => cases same

end Names

end TagPolicy.Language
