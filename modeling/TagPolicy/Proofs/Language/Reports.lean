import TagPolicy.Proofs.Language.Acceptance
import TagPolicy.Proofs.Language.Scanning
import TagPolicy.Proofs.Text.Places

/-!
Where errors are reported and where statements begin. Readers only take tokens off the front, so every
position that they ask for is that of a token or the end of the text. Errors of the scanner point at
the character that is rejected. All of these are places of the text: their offsets are character
boundaries, and their lines and columns count the characters before them.
-/

namespace TagPolicy.Language

open Grammar
open Outcome (bind_eq_ok ok_bind pure_eq_ok)
open Text (Position)

section Readers

variable {α β : Type} {scope : Scope} {tokens rest whole : List Token}

/-- A reader leaves the last of its tokens, or reports an error before some of the last of them. -/
def Scope.Within (scope : Scope) (tokens : List Token) :
    Except SourceError (α × List Token) → Prop
  | .ok (_, rest) => rest <:+ tokens
  | .error error => ∃ rest, rest <:+ tokens ∧ error.position = scope.here rest

def Scope.Keeps (scope : Scope) (read : Reader α) : Prop :=
  ∀ tokens, scope.Within tokens (read tokens)

theorem Scope.Within.widen {result : Except SourceError (α × List Token)}
    (within : scope.Within rest result) (shorter : rest <:+ tokens) : scope.Within tokens result := by
  cases result with
  | ok read => exact within.trans shorter
  | error error =>
      obtain ⟨last, ending, placed⟩ := within
      exact ⟨last, ending.trans shorter, placed⟩

theorem Scope.Within.bind {first : Except SourceError (α × List Token)}
    {next : α × List Token → Except SourceError (β × List Token)}
    (within : scope.Within tokens first)
    (onward : ∀ value rest, rest <:+ tokens → scope.Within tokens (next (value, rest))) :
    scope.Within tokens (first >>= next) := by
  cases first with
  | ok read => exact onward read.1 read.2 within
  | error error => exact within

theorem within_error (cause : Cause) (shorter : rest <:+ tokens) :
    scope.Within tokens (.error ⟨scope.here rest, cause⟩ : Except SourceError (α × List Token)) :=
  ⟨rest, shorter, rfl⟩

theorem within_here (cause : Cause) :
    scope.Within tokens (.error ⟨scope.here tokens, cause⟩ : Except SourceError (α × List Token)) :=
  within_error cause (List.suffix_refl _)

theorem keeps_read_value : scope.Keeps (readValue scope) := by
  intro tokens
  unfold readValue
  split
  · exact List.suffix_cons _ _
  · split
    · exact List.suffix_cons _ _
    · exact within_here (.notAValue _)
  · exact within_here _

theorem keeps_read_closing (item : α) : scope.Keeps (readClosing scope item) := by
  intro tokens
  unfold readClosing
  split
  · exact List.suffix_cons _ _
  · exact within_here _

theorem keeps_read_name : scope.Keeps (readName scope) := by
  intro tokens
  unfold readName
  split
  · split
    · exact within_here .nameExpected
    · exact (keeps_read_closing _ _).widen (List.suffix_cons _ _)
  · split
    · exact within_here .nameExpected
    · exact (keeps_read_closing _ _).widen (List.suffix_cons _ _)
  · exact within_here _

theorem keeps_read_operand (name : String) (comparison : Comparison) :
    scope.Keeps (fun tokens => do
      let (value, rest) ← readValue scope tokens
      pure (Expr.attr name comparison value, rest)) :=
  fun tokens => (keeps_read_value tokens).bind fun _ _ shorter => shorter

/-- A comparison that is missing is reported at the leaf that needs it, which begins before. -/
theorem within_read_comparison (name : String) (shorter : tokens <:+ whole) :
    scope.Within whole (readComparison scope (scope.here whole) name tokens) := by
  unfold readComparison
  split
  · exact (keeps_read_operand name .equal _).widen ((List.suffix_cons _ _).trans shorter)
  · exact (keeps_read_operand name .unequal _).widen ((List.suffix_cons _ _).trans shorter)
  · exact within_here _

theorem within_read_word (word : String) (shorter : tokens <:+ whole) :
    scope.Within whole (readWord scope word (scope.here whole) tokens) := by
  unfold readWord
  split
  · exact shorter
  split
  · exact shorter
  split
  · have inner := (List.suffix_cons _ _).trans shorter
    split
    · exact ((keeps_read_name _).widen inner).bind fun _ _ later => later
    split
    · exact ((keeps_read_name _).widen inner).bind fun _ _ later => within_read_comparison _ later
    · exact within_here _
  · exact within_here _

theorem keeps_read_leaf : scope.Keeps (readLeaf scope) := by
  intro tokens
  unfold readLeaf
  split
  · exact within_here .expressionExpected
  · exact List.suffix_cons _ _
  · split
    · exact List.suffix_cons _ _
    · exact within_here (.unknownPredicate _)
  · exact within_read_word _ (List.suffix_cons _ _)
  · exact within_here (.unexpectedToken _)

variable {inner : Option (Reader Expr)}

theorem keeps_read_primary (keeps : ∀ read ∈ inner, scope.Keeps read) :
    scope.Keeps (readPrimary scope inner) := by
  intro tokens
  unfold readPrimary
  split
  · rename_i position rest
    have shorter := List.suffix_cons ⟨.openParen, position⟩ rest
    split
    · exact within_here .tooDeep
    · apply ((keeps _ rfl _).widen shorter).bind
      exact fun expr _ later => (keeps_read_closing expr _).widen later
  · exact keeps_read_leaf tokens

theorem leading_nots_suffix (tokens : List Token) : (leadingNots tokens).2 <:+ tokens := by
  induction tokens with
  | nil => exact List.suffix_refl _
  | cons token rest induction =>
      rw [leadingNots]
      split
      · exact induction.trans (List.suffix_cons _ _)
      · exact List.suffix_refl _

theorem within_bounded (expr : Expr) (shorter : rest <:+ tokens) :
    scope.Within tokens (bounded (scope.here tokens) expr rest) := by
  unfold bounded
  split
  · exact shorter
  · exact within_here .tooDeep

theorem keeps_read_unary (keeps : ∀ read ∈ inner, scope.Keeps read) :
    scope.Keeps (readUnary scope inner) := by
  intro tokens
  simp only [readUnary]
  split
  · exact within_here .tooDeep
  · apply ((keeps_read_primary keeps _).widen (leading_nots_suffix tokens)).bind
    exact fun _ _ shorter => within_bounded _ shorter

variable {operand : Reader Expr}

theorem keeps_read_operands (keyword : String) (bound : List Token)
    (keeps : scope.Keeps operand) : scope.Keeps (readOperands keyword operand bound) := by
  induction bound with
  | nil => exact fun tokens => List.suffix_refl tokens
  | cons _ bound induction =>
      intro tokens
      rw [readOperands]
      split
      · apply ((keeps _).widen (List.tail_suffix tokens)).bind
        intro first rest shorter
        apply ((induction rest).widen shorter).bind
        exact fun others rest later => later
      · exact List.suffix_refl tokens

theorem keeps_read_chain (keyword : String) (join : Expr → Expr → Expr)
    (keeps : scope.Keeps operand) : scope.Keeps (readChain scope keyword join operand) := by
  intro tokens
  rw [readChain]
  apply (keeps tokens).bind
  intro first rest shorter
  apply ((keeps_read_operands keyword rest keeps rest).widen shorter).bind
  exact fun _ _ later => within_bounded _ later

theorem keeps_read_chains (keeps : ∀ read ∈ inner, scope.Keeps read) :
    scope.Keeps (readChains scope inner) := by
  apply keeps_read_chain
  apply keeps_read_chain
  exact keeps_read_unary keeps

theorem keeps_read_expr (nesting : Nat) : scope.Keeps (readExpr scope nesting) := by
  induction nesting with
  | zero => exact keeps_read_chains (by simp)
  | succ nesting induction => exact keeps_read_chains (by simpa using induction)

theorem within_read_definition (shorter : tokens <:+ whole) :
    scope.Within whole (readDefinition scope (scope.here whole) tokens) := by
  unfold readDefinition
  split
  · have inner := (List.suffix_cons _ _).trans shorter
    split
    · exact within_here _
    split
    · have body := (List.tail_suffix _).trans inner
      exact ((keeps_read_expr maxDepth _).widen body).bind fun _ _ later => later
    · exact within_error _ inner
  · exact within_here _

theorem within_read_rule (effect : Effect) (shorter : tokens <:+ whole) :
    scope.Within whole (readRule scope (scope.here whole) effect tokens) := by
  have body : (if nextIs "if" tokens then tokens.tail else tokens) <:+ whole := by
    split
    · exact (List.tail_suffix _).trans shorter
    · exact shorter
  exact ((keeps_read_expr maxDepth _).widen body).bind fun _ _ later => later

theorem keeps_read_statement : scope.Keeps (readStatement scope) := by
  intro tokens
  simp only [readStatement]
  split
  · exact within_read_definition (List.tail_suffix _)
  split
  · exact within_read_rule .allow (List.tail_suffix _)
  split
  · exact within_read_rule .deny (List.tail_suffix _)
  · exact within_here _

end Readers

section Documents

variable {finish : Position} {limit : Nat} {defined : List String} {tokens rest : List Token}
  {error : SourceError}

/-- The end of the text, or the place of one of the tokens. -/
def Reported (finish : Position) (tokens : List Token) (place : Position) : Prop :=
  place = finish ∨ ∃ token ∈ tokens, place = token.position

/-- Readers look at the place of the next token or at the end, wherever in the tokens they are. -/
theorem reported_here (scope : Scope) (shorter : rest <:+ tokens) :
    Reported scope.finish tokens (scope.here rest) := by
  cases rest with
  | nil => exact .inl rfl
  | cons token rest => exact .inr ⟨token, shorter.subset List.mem_cons_self, rfl⟩

theorem Reported.widen {place : Position} (reported : Reported finish rest place)
    (shorter : rest <:+ tokens) : Reported finish tokens place := by
  obtain atEnd | ⟨token, inside, atToken⟩ := reported
  · exact .inl atEnd
  · exact .inr ⟨token, shorter.subset inside, atToken⟩

/-- By induction on the statements that may be read; what the earlier ones define does not matter. -/
theorem reported_read_statements
    (refused : readStatements finish limit defined tokens = .error error) :
    Reported finish tokens error.position := by
  induction limit generalizing defined tokens with
  | zero => cases tokens <;> cases refused
  | succ limit induction =>
      cases tokens with
      | nil => cases refused
      | cons token tokens =>
          have keeps : Scope.Keeps ⟨defined, finish⟩ (readStatement ⟨defined, finish⟩) :=
            keeps_read_statement
          have within := keeps (token :: tokens)
          rw [read_statements_cons] at refused
          cases read : readStatement ⟨defined, finish⟩ (token :: tokens) with
          | error fault =>
              rw [read] at refused within
              cases refused
              obtain ⟨rest, shorter, placed⟩ := within
              rw [placed]
              exact reported_here ⟨defined, finish⟩ shorter
          | ok first =>
              obtain ⟨statement, rest⟩ := first
              rw [read] at refused within
              rw [ok_bind] at refused
              dsimp only at refused
              cases later : readStatements finish limit (statement.defined?.toList ++ defined) rest
                with
              | ok statements =>
                  rw [later] at refused
                  cases refused
              | error fault =>
                  rw [later] at refused
                  cases refused
                  exact (induction later).widen within

/-- A statement's line is that of its first token. -/
theorem Grammar.IsDocument.lines {nesting : Nat} {statements : List Statement}
    (document : IsDocument nesting tokens statements) :
    ∀ statement ∈ statements, ∃ token ∈ tokens, statement.line = token.position.line := by
  induction document with
  | nil => simp
  | @cons front tokens statement statements first _ induction =>
      have begins : ∃ token ∈ front, statement.line = token.position.line := by
        cases first <;> exact ⟨_, List.mem_cons_self, rfl⟩
      refine List.forall_mem_cons.mpr ⟨?_, fun later among => ?_⟩
      · obtain ⟨token, inside, same⟩ := begins
        exact ⟨token, List.mem_append_left _ inside, same⟩
      · obtain ⟨token, inside, same⟩ := induction later among
        exact ⟨token, List.mem_append_right _ inside, same⟩

end Documents

section Texts

variable {text : String} {tokens rest : List Token} {error : SourceError}

def Token.BeginsIn (text : String) (token : Token) : Prop :=
  ∃ front spelled back, Position.Between text front (spelled ++ back) token.position ∧
    token.lexeme.Spelled spelled

/-- The error's position is the place of a character that the scanner rejects. -/
def SourceError.PointsIn (text : String) (error : SourceError) : Prop :=
  ∃ front char back, Position.Between text front (char :: back) error.position ∧
    Rejects error.cause char back

theorem begins_in_of_tokenize (scanned : tokenize text = .ok tokens) :
    ∀ token ∈ tokens, token.BeginsIn text := by
  intro token inside
  obtain ⟨front, spelled, back, split, isSpelled, placed⟩ := stands_of_tokenize scanned token inside
  rw [List.append_assoc] at split
  exact ⟨front, spelled, back, placed ▸ Position.between_after split, isSpelled⟩

theorem points_in_of_tokenize (refused : tokenize text = .error error) : error.PointsIn text := by
  obtain ⟨front, char, back, split, rejects, placed⟩ := rejected_of_tokenize refused
  exact ⟨front, char, back, placed ▸ Position.between_after split, rejects⟩

theorem between_finish (text : String) :
    Position.Between text text.toList [] (Position.finish text) :=
  Position.between_after (List.append_nil _).symm

theorem offset_finish (text : String) : (Position.finish text).offset = text.utf8ByteSize := by
  rw [(between_finish text).offset, String.ofList_toList]

theorem Reported.is_place {place : Position} (scanned : tokenize text = .ok tokens)
    (reported : Reported (Position.finish text) tokens place) : Position.IsPlace text place := by
  obtain rfl | ⟨token, inside, rfl⟩ := reported
  · exact ⟨_, _, between_finish text⟩
  · obtain ⟨front, spelled, back, between, -⟩ := begins_in_of_tokenize scanned token inside
    exact ⟨_, _, between⟩

/-- Where a document's error can be: where the scanner gives up, or else at a token or the end. -/
theorem reported_of_parse (refused : Document.parse text = .error error) :
    tokenize text = .error error ∨
      ∃ tokens, tokenize text = .ok tokens ∧
        Reported (Position.finish text) tokens error.position := by
  unfold Document.parse at refused
  cases scanned : tokenize text with
  | error fault =>
      rw [scanned] at refused
      cases refused
      exact .inl rfl
  | ok tokens =>
      rw [scanned, ok_bind, Document.ofTokens] at refused
      cases read : readStatements (Position.finish text) tokens.length [] tokens with
      | ok statements =>
          rw [read] at refused
          cases refused
      | error fault =>
          rw [read] at refused
          cases refused
          exact .inr ⟨tokens, rfl, reported_read_statements read⟩

/-- What is known of the places in a text at which its document is read or refused. -/
structure Places (text : String) : Prop where
  /-- Every place is at a character boundary, from which alone its line and column follow; so is
  the place at which its line begins. -/
  boundary : ∀ position, Position.IsPlace text position →
    String.Pos.Raw.IsValid text ⟨position.offset⟩ ∧
      position = Position.ofOffset text position.offset ∧
        ∃ first, Position.IsPlace text first ∧ first.line = position.line ∧ first.column = 1 ∧
          first.offset ≤ position.offset
  /-- Lines and columns are in the order of the boundaries, and tell them apart. -/
  order : ∀ first second, String.Pos.Raw.IsValid text ⟨first⟩ → String.Pos.Raw.IsValid text ⟨second⟩ →
    (first < second → (Position.ofOffset text first).Precedes (Position.ofOffset text second)) ∧
      ((Position.ofOffset text first).line = (Position.ofOffset text second).line →
        (Position.ofOffset text first).column = (Position.ofOffset text second).column →
          first = second)
  /-- Tokens stand where they are said to, and what readers ask for is a place, wherever they are. -/
  tokens : ∀ tokens, tokenize text = .ok tokens →
    (∀ token ∈ tokens, token.BeginsIn text) ∧
      ∀ defined rest, rest <:+ tokens →
        Position.IsPlace text (Scope.here ⟨defined, Position.finish text⟩ rest)
  /-- A statement's line is that of a token. -/
  lines : ∀ document, Document.parse text = .ok document →
    ∃ tokens, tokenize text = .ok tokens ∧
      ∀ statement ∈ document.statements, ∃ token ∈ tokens, statement.line = token.position.line
  /-- An error is at a place: at what the scanner rejects, at a token or at the end of the text. -/
  errors : ∀ error, Document.parse text = .error error →
    Position.IsPlace text error.position ∧
      (tokenize text = .error error ∧ error.PointsIn text ∨
        ∃ tokens, tokenize text = .ok tokens ∧
          (error.position.offset = text.utf8ByteSize ∨
            ∃ token ∈ tokens, error.position = token.position))

theorem Document.parse_places (text : String) : Places text where
  boundary := by
    rintro position ⟨front, back, between⟩
    exact ⟨between.boundary, between.eq_of_offset, between.line_start⟩
  order _ _ valid also :=
    ⟨Position.precedes_of_offset valid also, Position.offset_of_line_column valid also⟩
  tokens tokens scanned := by
    refine ⟨begins_in_of_tokenize scanned, fun defined rest shorter => ?_⟩
    exact (reported_here ⟨defined, Position.finish text⟩ shorter).is_place scanned
  lines document parsed := by
    obtain ⟨tokens, scanned, derived, -⟩ := Document.of_parse parsed
    exact ⟨tokens, scanned, derived.lines⟩
  errors error refused := by
    obtain scanned | ⟨tokens, scanned, reported⟩ := reported_of_parse refused
    · have points := points_in_of_tokenize scanned
      have place : Position.IsPlace text error.position := by
        obtain ⟨front, char, back, between, -⟩ := points
        exact ⟨_, _, between⟩
      exact ⟨place, .inl ⟨scanned, points⟩⟩
    · refine ⟨reported.is_place scanned, .inr ⟨tokens, scanned, ?_⟩⟩
      apply Or.imp_left (fun atEnd => ?_) reported
      rw [atEnd, offset_finish]

/-- A text that goes on where it ends, and one with a bracket that is never closed. -/
theorem errors_behind_wide_letters :
    Document.parse "ALLOW \x7bé\x7d or" = .error ⟨⟨13, 1, 13⟩, .expressionExpected⟩ ∧
      Document.parse "# é\nDENY \x7bné" = .error ⟨⟨10, 2, 6⟩, .unterminatedName .curly⟩ ∧
      String.Pos.Raw.IsValid "ALLOW \x7bé\x7d or" ⟨13⟩ ∧
      Position.ofOffset "# é\nDENY \x7bné" 10 = ⟨10, 2, 6⟩ := by
  have goesOn : Document.parse "ALLOW \x7bé\x7d or" = .error ⟨⟨13, 1, 13⟩, .expressionExpected⟩ := by
    decide +kernel
  have unclosed : Document.parse "# é\nDENY \x7bné" =
      .error ⟨⟨10, 2, 6⟩, .unterminatedName .curly⟩ := by
    decide +kernel
  obtain ⟨atEnd, -⟩ := (Document.parse_places _).errors _ goesOn
  obtain ⟨atBracket, -⟩ := (Document.parse_places _).errors _ unclosed
  obtain ⟨valid, -⟩ := (Document.parse_places _).boundary _ atEnd
  obtain ⟨-, same, -⟩ := (Document.parse_places _).boundary _ atBracket
  exact ⟨goesOn, unclosed, valid, same.symm⟩

end Texts

end TagPolicy.Language
