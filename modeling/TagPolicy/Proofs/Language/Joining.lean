import TagPolicy.Proofs.Language.Reprinting

/-!
Texts one below the other. What the scanner and the readers make of a text does not depend on what
stands above it, but for the places, as long as the text above is one for itself: a line feed ends
its last word or comment, and its names or strings are closed. So the two documents follow each
other, unless the second defines a name of the first.
-/

namespace TagPolicy

namespace Text.Position

def moved (octets lines : Nat) (position : Position) : Position :=
  ⟨position.offset + octets, position.line + lines, position.column⟩

variable {octets lines : Nat}

theorem next_moved (position : Position) (char : Char) :
    (position.moved octets lines).next char = (position.next char).moved octets lines := by
  unfold next moved
  split <;> simp only [Nat.add_right_comm]

/-- Below a text that ends with a line feed, places are counted as at its start. -/
theorem after_feed (chars : List Char) :
    start.after (chars ++ ['\n']) =
      start.moved ((start.after chars).offset + 1) (1 + chars.count '\n') := by
  rw [after_append, after_cons, after_nil, next, if_pos rfl, line_after, moved]
  have octet : '\n'.utf8Size = 1 := by decide
  rw [octet]
  simp only [start, Nat.zero_add, Nat.add_comm, Nat.add_left_comm]

end Text.Position

namespace Language

open Grammar
open Outcome (bind_eq_ok ok_bind pure_eq_ok)
open Text (Position)

section Scanning

variable {scan next : Scan} {position : Position} {char : Char} {chars rest : List Char}
  {emitted tokens later : List Token} {octets lines : Nat}

def Token.moved (octets lines : Nat) (token : Token) : Token :=
  ⟨token.lexeme, token.position.moved octets lines⟩

def Scan.moved (octets lines : Nat) : Scan → Scan
  | between => .between
  | comment => .comment
  | word start seen => .word (start.moved octets lines) seen
  | name bracket start seen => .name bracket (start.moved octets lines) seen
  | quoted start seen => .quoted (start.moved octets lines) seen
  | escape start seen => .escape (start.moved octets lines) seen
  | comparison start first => .comparison (start.moved octets lines) first

theorem begin_moved (begun : begin position char = .ok (next, emitted)) :
    begin (position.moved octets lines) char =
      .ok (next.moved octets lines, emitted.map (Token.moved octets lines)) := by
  unfold begin at begun ⊢
  repeat' split at begun
  all_goals cases begun
  all_goals simp only [*, if_true, if_false]
  all_goals rfl

theorem step_moved (stepped : scan.step position char = .ok (next, emitted)) :
    (scan.moved octets lines).step (position.moved octets lines) char =
      .ok (next.moved octets lines, emitted.map (Token.moved octets lines)) := by
  cases scan with
  | between => exact begin_moved stepped
  | comment =>
      cases stepped
      by_cases feed : char = '\n'
      · simp [Scan.moved, Scan.step, feed]
      · simp [Scan.moved, Scan.step, feed]
  | word start seen =>
      rw [Scan.step] at stepped
      rw [Scan.moved, Scan.step]
      split at stepped
      · cases stepped
        rw [if_pos ‹_›]
        rfl
      · obtain ⟨⟨begun, found⟩, first, finished⟩ := bind_eq_ok.mp stepped
        cases pure_eq_ok.mp finished
        rw [if_neg ‹_›]
        exact bind_eq_ok.mpr ⟨_, begin_moved first, rfl⟩
  | name bracket start seen =>
      rw [Scan.step] at stepped
      dsimp only at stepped
      repeat' split at stepped
      all_goals cases stepped
      all_goals simp only [Scan.moved, Scan.step, *, if_true, if_false]
      all_goals rfl
  | quoted start seen =>
      rw [Scan.step] at stepped
      repeat' split at stepped
      all_goals cases stepped
      all_goals simp only [Scan.moved, Scan.step, *, if_true, if_false]
      all_goals rfl
  | escape start seen =>
      cases stepped
      rfl
  | comparison start first =>
      rw [Scan.step] at stepped
      split at stepped
      · cases stepped
        simp only [Scan.moved, Scan.step, *, if_true]
        rfl
      · cases stepped

theorem finish_moved (finished : scan.finish = .ok tokens) :
    (scan.moved octets lines).finish = .ok (tokens.map (Token.moved octets lines)) := by
  cases scan <;> cases finished <;> rfl

/-- A text is scanned in the same way wherever it stands. -/
theorem run_moved (ran : scan.run position chars = .ok tokens) :
    (scan.moved octets lines).run (position.moved octets lines) chars =
      .ok (tokens.map (Token.moved octets lines)) := by
  induction chars generalizing scan position tokens with
  | nil => exact finish_moved ran
  | cons char rest induction =>
      obtain ⟨⟨next, emitted⟩, stepped, ran⟩ := bind_eq_ok.mp ran
      obtain ⟨later, runs, finished⟩ := bind_eq_ok.mp ran
      cases pure_eq_ok.mp finished
      rw [List.map_append]
      apply run_cons (step_moved stepped)
      rw [Position.next_moved]
      exact induction runs

/-- Where a text may end, a line feed leaves the scanner between two tokens. -/
theorem step_feed (finished : scan.finish = .ok tokens) :
    scan.step position '\n' = .ok (.between, tokens) := by
  cases scan <;> cases finished <;> rfl

theorem run_above (ran : scan.run position chars = .ok tokens)
    (runs : Scan.between.run (position.after (chars ++ ['\n'])) rest = .ok later) :
    scan.run position (chars ++ '\n' :: rest) = .ok (tokens ++ later) := by
  induction chars generalizing scan position tokens with
  | nil => exact run_cons (step_feed ran) runs
  | cons char chars induction =>
      obtain ⟨⟨next, emitted⟩, stepped, ran⟩ := bind_eq_ok.mp ran
      obtain ⟨found, goesOn, finished⟩ := bind_eq_ok.mp ran
      cases pure_eq_ok.mp finished
      rw [List.append_assoc]
      exact run_cons stepped (induction goesOn runs)

/-- The tokens of a text with another text below it. -/
theorem tokenize_joined {first second : String} {above below : List Token}
    (scannedAbove : tokenize first = .ok above) (scannedBelow : tokenize second = .ok below) :
    tokenize (first ++ "\n" ++ second) =
      .ok (above ++ below.map
        (Token.moved ((Position.finish first).offset + 1) (1 + first.toList.count '\n'))) := by
  have chars : (first ++ "\n" ++ second).toList = first.toList ++ '\n' :: second.toList := by
    simp
  rw [tokenize, chars]
  apply run_above scannedAbove
  rw [Position.after_feed]
  exact run_moved scannedBelow

end Scanning

section Deriving

variable {token : Token} {tokens : List Token} {keyword : String} {nesting octets lines : Nat}

theorem Grammar.IsKeyword.moved (spelled : IsKeyword keyword token) :
    IsKeyword keyword (token.moved octets lines) := by
  cases spelled with
  | word same => exact .word same

theorem Grammar.IsName.moved {name : String} (isName : IsName name token) :
    IsName name (token.moved octets lines) := by
  cases isName with
  | word present => exact .word present
  | quoted present => exact .quoted present

theorem Grammar.IsComparison.moved {comparison : Comparison}
    (isComparison : IsComparison comparison token) :
    IsComparison comparison (token.moved octets lines) := by
  cases isComparison with
  | equal => exact .equal
  | unequal => exact .unequal

theorem Grammar.IsValue.moved {value : Value} (isValue : IsValue value token) :
    IsValue value (token.moved octets lines) := by
  cases isValue with
  | text => exact .text
  | integer writes => exact .integer writes
  | true spelled => exact .true spelled.moved
  | false spelled => exact .false spelled.moved

theorem Grammar.Leaf.moved {expr : Expr} (leaf : Leaf tokens expr) :
    Leaf (tokens.map (Token.moved octets lines)) expr := by
  cases leaf with
  | true spelled => exact .true spelled.moved
  | false spelled => exact .false spelled.moved
  | call spelled isName => exact .call spelled.moved isName.moved
  | braced => exact .braced
  | attr spelled isName isComparison isValue =>
      exact .attr spelled.moved isName.moved isComparison.moved isValue.moved
  | reference => exact .reference

theorem Grammar.Repeated.moved {parts : List (List Token)}
    (repeated : Repeated keyword parts tokens) :
    Repeated keyword (parts.map (List.map (Token.moved octets lines)))
      (tokens.map (Token.moved octets lines)) := by
  induction repeated with
  | nil => exact .nil
  | cons spelled _ induction =>
      rw [List.map_append, List.map_cons]
      exact .cons spelled.moved induction

def movedOperand (octets lines : Nat) (operand : List Token × Expr) : List Token × Expr :=
  (operand.1.map (Token.moved octets lines), operand.2)

theorem Grammar.Repeated.moved_operands {others : List (List Token × Expr)}
    (repeated : Repeated keyword (others.map Prod.fst) tokens) :
    Repeated keyword ((others.map (movedOperand octets lines)).map Prod.fst)
      (tokens.map (Token.moved octets lines)) := by
  have parts : (others.map (movedOperand octets lines)).map Prod.fst =
      (others.map Prod.fst).map (List.map (Token.moved octets lines)) := by
    rw [List.map_map, List.map_map]
    rfl
  rw [parts]
  exact repeated.moved

theorem operands_moved (first : List Token × Expr) (others : List (List Token × Expr)) :
    (movedOperand octets lines first :: others.map (movedOperand octets lines)).map Prod.snd =
      (first :: others).map Prod.snd := by
  rw [List.map_cons, List.map_cons, List.map_map]
  rfl

/-- What tokens derive does not depend on their places. -/
theorem Grammar.Derives.moved {category : Category} {expr : Expr}
    (derived : Derives category nesting tokens expr) :
    Derives category nesting (tokens.map (Token.moved octets lines)) expr := by
  induction derived with
  | @or nesting first others tokens expr _ repeated folded induction =>
      rw [List.map_append]
      refine @Derives.or nesting (movedOperand octets lines first)
        (others.map (movedOperand octets lines)) _ expr ?_ repeated.moved_operands ?_
      · rw [← List.map_cons, List.forall_mem_map]
        exact induction
      · rw [operands_moved]
        exact folded
  | @and nesting first others tokens expr _ repeated folded induction =>
      rw [List.map_append]
      refine @Derives.and nesting (movedOperand octets lines first)
        (others.map (movedOperand octets lines)) _ expr ?_ repeated.moved_operands ?_
      · rw [← List.map_cons, List.forall_mem_map]
        exact induction
      · rw [operands_moved]
        exact folded
  | not spelled _ induction => exact .not spelled.moved induction
  | primary _ induction => exact .primary induction
  | parens _ induction =>
      rw [List.map_append, List.map_cons]
      exact .parens induction
  | leaf leaf => exact .leaf leaf.moved

def Statement.lowered (lines : Nat) (statement : Statement) : Statement :=
  statement.atLine (statement.line + lines)

theorem Grammar.IsStatement.moved {statement : Statement}
    (derived : IsStatement nesting tokens statement) :
    IsStatement nesting (tokens.map (Token.moved octets lines)) (statement.lowered lines) := by
  cases derived with
  | define spelled spelledAs derived => exact .define spelled.moved spelledAs.moved derived.moved
  | rule spelled derived => exact .rule spelled.moved derived.moved
  | ruleIf spelled spelledIf derived => exact .ruleIf spelled.moved spelledIf.moved derived.moved

theorem Grammar.IsDocument.moved {statements : List Statement}
    (document : IsDocument nesting tokens statements) :
    IsDocument nesting (tokens.map (Token.moved octets lines))
      (statements.map (Statement.lowered lines)) := by
  induction document with
  | nil => exact .nil
  | cons first _ induction =>
      rw [List.map_append]
      exact .cons first.moved induction

end Deriving

section Scoping

variable {own defined : List String} {statement : Statement} {statements : List Statement}
  {lines : Nat}

@[simp] theorem Statement.expr_lowered : (statement.lowered lines).expr = statement.expr :=
  statement.expr_at_line _

@[simp] theorem Statement.defined_lowered :
    (statement.lowered lines).defined? = statement.defined? :=
  statement.defined_at_line _

theorem Document.defined_by_append (later : List Statement) :
    definedBy (statements ++ later) = definedBy statements ++ definedBy later :=
  List.filterMap_append

theorem Document.defined_by_lowered :
    definedBy (statements.map (Statement.lowered lines)) = definedBy statements := by
  rw [definedBy, definedBy, List.filterMap_map]
  congr 1
  funext statement
  exact statement.defined_lowered

theorem in_scope_lowered :
    InScope defined (statements.map (Statement.lowered lines)) ↔ InScope defined statements := by
  apply in_scope_congr
  · simp
  · simp

theorem shallow_lowered (shallow : ∀ statement ∈ statements, statement.expr.depth ≤ maxDepth) :
    ∀ statement ∈ statements.map (Statement.lowered lines), statement.expr.depth ≤ maxDepth := by
  rw [List.forall_mem_map]
  intro statement inside
  rw [Statement.expr_lowered]
  exact shallow statement inside

/-- More names may be defined before, as long as none of them is defined again. -/
theorem in_scope_wider (inScope : InScope own statements) (more : ∀ name ∈ own, name ∈ defined)
    (apart : ∀ name ∈ Document.definedBy statements, name ∉ defined) :
    InScope defined statements := by
  rw [in_scope_iff] at inScope ⊢
  obtain ⟨⟨once, -⟩, known⟩ := inScope
  refine ⟨⟨once, apart⟩, ?_⟩
  intro position statement place name inside
  rcases List.mem_append.mp (known position statement place name inside) with before | before
  · exact List.mem_append_left _ before
  · exact List.mem_append_right _ (more name before)

end Scoping

section Reading

variable {finish : Position} {limit : Nat} {own defined : List String} {front rest tokens : List Token}
  {name : String} {body : Expr} {line nesting : Nat} {statements : List Statement}

theorem read_statement_taken (derived : IsStatement nesting front (.define name body line))
    (taken : name ∈ defined) :
    ∃ position, readStatement ⟨defined, finish⟩ (front ++ rest) =
      .error ⟨position, .alreadyDefined name⟩ := by
  cases derived with
  | @define word as _ position tokens _ spelled spelledAs derived =>
      have next : nextIs "define" (word :: ⟨.bracketed name, position⟩ :: as :: tokens ++ rest) =
        true := spelled.next_self _
      refine ⟨word.position, ?_⟩
      rw [readStatement, if_pos next]
      change readDefinition ⟨defined, finish⟩ word.position
        (⟨.bracketed name, position⟩ :: (as :: tokens ++ rest)) = _
      rw [readDefinition, if_pos taken]

theorem mem_wider_names {names : List String} (more : ∀ name ∈ own, name ∈ defined) :
    ∀ name ∈ names ++ own, name ∈ names ++ defined := by
  intro name inside
  rcases List.mem_append.mp inside with here | before
  · exact List.mem_append_left _ here
  · exact List.mem_append_right _ (more name before)

/-- Where a statement defines no name that is taken, it is a later one that does. -/
theorem clash_later {statement : Statement} (fresh : ∀ name ∈ statement.defined?, name ∉ defined)
    (clash : ∃ name ∈ Document.definedBy (statement :: statements), name ∈ defined) :
    ∃ name ∈ Document.definedBy statements, name ∈ statement.defined?.toList ++ defined := by
  obtain ⟨name, inside, known⟩ := clash
  rw [Document.defined_by_cons] at inside
  rcases List.mem_append.mp inside with here | later
  · exact absurd known (fresh name (Option.mem_toList.mp here))
  · exact ⟨name, later, List.mem_append_right _ known⟩

/-- A document that defines a name that is taken is read up to the first such definition. -/
theorem read_statements_clash (document : IsDocument maxDepth tokens statements)
    (inScope : InScope own statements)
    (shallow : ∀ statement ∈ statements, statement.expr.depth ≤ maxDepth)
    (more : ∀ name ∈ own, name ∈ defined)
    (clash : ∃ name ∈ Document.definedBy statements, name ∈ defined)
    (room : tokens.length ≤ limit) :
    ∃ position, ∃ name ∈ Document.definedBy statements, name ∈ defined ∧
      readStatements finish limit defined tokens = .error ⟨position, .alreadyDefined name⟩ := by
  induction document generalizing own defined limit with
  | nil =>
      obtain ⟨name, inside, -⟩ := clash
      cases inside
  | @cons front tokens statement statements first later induction =>
      obtain ⟨-, resolved, inScope⟩ := inScope
      obtain ⟨shallowFirst, shallow⟩ := List.forall_mem_cons.mp shallow
      have apart := (in_scope_iff.mp inScope).1.2
      obtain ⟨word, tail, rfl, -⟩ := first.starts
      cases limit with
      | zero => cases room
      | succ limit =>
          rw [List.cons_append, read_statements_cons, ← List.cons_append]
          by_cases taken : ∃ name ∈ statement.defined?, name ∈ defined
          · obtain ⟨name, defines, taken⟩ := taken
            cases statement with
            | rule => cases defines
            | define other body line =>
                cases defines
                obtain ⟨position, refused⟩ := read_statement_taken first taken
                refine ⟨position, name, List.mem_cons_self, taken, ?_⟩
                rw [refused]
                rfl
          · have fresh : ∀ name ∈ statement.defined?, name ∉ defined :=
              fun name defines inside => taken ⟨name, defines, inside⟩
            have states : Scope.States ⟨defined, finish⟩ (word :: tail) statement :=
              ⟨first, fresh, fun name inside => more name (resolved name inside), shallowFirst⟩
            have fewer : tokens.length ≤ limit := by
              simp only [List.cons_append, List.length_cons, List.length_append] at room
              omega
            obtain ⟨position, name, inside, known, reads⟩ := induction inScope shallow
              (mem_wider_names more) (clash_later fresh clash) fewer
            refine ⟨position, name, ?_, ?_, ?_⟩
            · rw [Document.defined_by_cons]
              exact List.mem_append_right _ inside
            · rcases List.mem_append.mp known with here | before
              · exact absurd (List.mem_append_left _ here) (apart name inside)
              · exact before
            · rw [read_statement_of_states states later.ends, ok_bind]
              dsimp only
              rw [reads]
              rfl

end Reading

section Documents

variable {first second : String} {above below : Document}

/-- The line feed between two texts and those of the first. -/
def feedsAbove (first : String) : Nat := 1 + first.toList.count '\n'

/-- Reading the second text goes on where the first ends, with the names of the first. -/
theorem Document.parse_goes_on (parsedAbove : parse first = .ok above)
    (parsedBelow : parse second = .ok below) :
    ∃ tokens limit, tokens.length ≤ limit ∧
      IsDocument maxDepth tokens (below.statements.map (Statement.lowered (feedsAbove first))) ∧
        parse (first ++ "\n" ++ second) = (do
          let later ← readStatements (.finish (first ++ "\n" ++ second)) limit
            (namesAfter [] above.statements) tokens
          pure ⟨above.statements ++ later⟩) := by
  obtain ⟨tokensAbove, scannedAbove, derivedAbove, inScope, shallow⟩ := of_parse parsedAbove
  obtain ⟨tokensBelow, scannedBelow, derivedBelow, -⟩ := of_parse parsedBelow
  have moved : IsDocument maxDepth
      (tokensBelow.map (Token.moved ((Position.finish first).offset + 1) (feedsAbove first)))
      (below.statements.map (Statement.lowered (feedsAbove first))) := derivedBelow.moved
  obtain ⟨limit, room, reads⟩ := read_statements_front (.finish (first ++ "\n" ++ second))
    derivedAbove inScope shallow moved.ends (Nat.le_refl _)
  refine ⟨_, limit, room, moved, ?_⟩
  rw [parse, tokenize_joined scannedAbove scannedBelow, ok_bind, ofTokens, ← feedsAbove, reads]
  cases readStatements (.finish (first ++ "\n" ++ second)) limit (namesAfter [] above.statements)
    (tokensBelow.map (Token.moved ((Position.finish first).offset + 1) (feedsAbove first))) <;> rfl

theorem mem_names_above {document : Document} {name : String} :
    name ∈ namesAfter [] document.statements ↔ name ∈ Document.definedBy document.statements := by
  rw [mem_names_after]
  simp

/-- Two texts that define different names are read as two documents, one after the other. -/
theorem Document.parse_joined (parsedAbove : parse first = .ok above)
    (parsedBelow : parse second = .ok below)
    (apart : ∀ name ∈ definedBy below.statements, name ∉ definedBy above.statements) :
    parse (first ++ "\n" ++ second) =
      .ok ⟨above.statements ++ below.statements.map (Statement.lowered (feedsAbove first))⟩ := by
  obtain ⟨tokens, limit, room, derived, reads⟩ := parse_goes_on parsedAbove parsedBelow
  obtain ⟨-, -, -, inScope, shallow⟩ := of_parse parsedBelow
  have wider : InScope (namesAfter [] above.statements)
      (below.statements.map (Statement.lowered (feedsAbove first))) := by
    apply in_scope_wider (in_scope_lowered.mpr inScope) (fun name absent => by cases absent)
    intro name inside known
    rw [defined_by_lowered] at inside
    exact apart name inside (mem_names_above.mp known)
  rw [reads, read_statements_of_document derived wider (shallow_lowered shallow) room, ok_bind]
  rfl

/-- A name of the first text that the second defines again is an error. -/
theorem Document.parse_clash (parsedAbove : parse first = .ok above)
    (parsedBelow : parse second = .ok below)
    (clash : ∃ name ∈ definedBy below.statements, name ∈ definedBy above.statements) :
    ∃ position, ∃ name ∈ definedBy below.statements, name ∈ definedBy above.statements ∧
      parse (first ++ "\n" ++ second) = .error ⟨position, .alreadyDefined name⟩ := by
  obtain ⟨tokens, limit, room, derived, reads⟩ := parse_goes_on parsedAbove parsedBelow
  obtain ⟨-, -, -, inScope, shallow⟩ := of_parse parsedBelow
  have taken : ∃ name ∈ definedBy (below.statements.map (Statement.lowered (feedsAbove first))),
      name ∈ namesAfter [] above.statements := by
    obtain ⟨name, inside, known⟩ := clash
    rw [defined_by_lowered]
    exact ⟨name, inside, mem_names_above.mpr known⟩
  obtain ⟨position, name, inside, known, refused⟩ := read_statements_clash derived
    (in_scope_lowered.mpr inScope) (shallow_lowered shallow)
    (fun name absent => by cases absent) taken room
  rw [defined_by_lowered] at inside
  refine ⟨position, name, inside, mem_names_above.mp known, ?_⟩
  rw [reads, refused]
  rfl

end Documents

end Language

end TagPolicy
