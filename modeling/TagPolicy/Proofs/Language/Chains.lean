import TagPolicy.Proofs.Language.Leaves

/-!
Chains of operands: the tree that a chain is folded into, and the reading of its operands one after
the other. Nothing is supposed of the operands but that one reader reads them all.
-/

namespace TagPolicy.Language

open Grammar
open Outcome (bind_eq_ok ok_bind pure_eq_ok)
open Text (Position)

section Folding

variable {join : Expr → Expr → Expr} {operands : List Expr} {expr other : Expr}

theorem Grammar.Folded.unique (folded : Folded join operands expr)
    (also : Folded join operands other) : expr = other := by
  induction folded generalizing other with
  | single =>
      cases also with
      | single => rfl
      | halves several => exact absurd several (by simp)
  | halves several _ _ left right =>
      cases also with
      | single => exact absurd several (by simp)
      | halves _ otherLeft otherRight => rw [left otherLeft, right otherRight]

theorem folded_balanced (join : Expr → Expr → Expr) (first : Expr) (rest : List Expr) :
    Folded join (first :: rest) (Expr.balanced join first rest) := by
  fun_induction Expr.balanced join first rest with
  | case1 first rest half split =>
      have short := List.drop_eq_nil_iff.mp split
      have none : rest = [] := by
        apply List.eq_nil_of_length_eq_zero
        omega
      rw [none]
      exact .single
  | case2 first rest half second others split left right =>
      have length := congrArg List.length split
      rw [List.length_drop, List.length_cons] at length
      -- the middle of the operands lies one place further than that of the operands after the first
      obtain ⟨before, place⟩ : ∃ before, half = before + 1 := ⟨half - 1, by omega⟩
      rw [place, Nat.add_sub_cancel] at split left
      have middle : (first :: rest).length / 2 = before + 1 := place
      apply Folded.halves
      · rw [List.length_cons]
        omega
      · rw [middle, List.take_succ_cons, place, Nat.add_sub_cancel]
        exact left
      · rw [middle, List.drop_succ_cons, split]
        exact right

theorem folded_iff {first : Expr} {rest : List Expr} :
    Folded join (first :: rest) expr ↔ expr = Expr.balanced join first rest := by
  constructor
  · intro folded
    exact folded.unique (folded_balanced join first rest)
  · rintro rfl
    exact folded_balanced join first rest

/-- What a tree passes on to its sides, the tree of a chain passes on to its operands. -/
theorem Grammar.Folded.forall_of {good : Expr → Prop}
    (sides : ∀ left right, good (join left right) → good left ∧ good right)
    (folded : Folded join operands expr) (whole : good expr) :
    ∀ operand ∈ operands, good operand := by
  induction folded with
  | single => simpa using whole
  | @halves operands left right several _ _ inLeft inRight =>
      have both := sides left right whole
      rw [← List.take_append_drop (operands.length / 2) operands]
      intro operand inside
      rcases List.mem_append.mp inside with inside | inside
      · exact inLeft both.1 operand inside
      · exact inRight both.2 operand inside

theorem Grammar.Folded.of_forall {good : Expr → Prop}
    (joined : ∀ left right, good left → good right → good (join left right))
    (folded : Folded join operands expr) (each : ∀ operand ∈ operands, good operand) :
    good expr := by
  induction folded with
  | single => exact each _ List.mem_cons_self
  | halves several _ _ left right =>
      apply joined
      · exact left fun operand inside => each operand (List.mem_of_mem_take inside)
      · exact right fun operand inside => each operand (List.mem_of_mem_drop inside)

end Folding

section Reading

variable {scope : Scope} {keyword : String} {join : Expr → Expr → Expr} {operand : Reader Expr}
  {right : List Token → Expr → Prop} {tokens rest : List Token}

theorem bounded_eq_ok {start : Position} {expr result : Expr} {after : List Token} :
    bounded start expr rest = .ok (result, after) ↔
      expr.depth ≤ maxDepth ∧ result = expr ∧ after = rest := by
  rw [bounded]
  split
  · simp [*, eq_comm]
  · simp [*]

/-- A reader takes only what is right off the front of the tokens. -/
def Takes (read : Reader Expr) (right : List Token → Expr → Prop) : Prop :=
  ∀ ⦃tokens expr rest⦄, read tokens = .ok (expr, rest) →
    ∃ front, tokens = front ++ rest ∧ right front expr

abbrev Operand := List Token × Expr

theorem Takes.operands (takes : Takes operand right) {bound : List Token} {exprs : List Expr}
    (read : readOperands keyword operand bound tokens = .ok (exprs, rest)) :
    ∃ (operands : List Operand) (front : List Token), tokens = front ++ rest ∧
      exprs = operands.map Prod.snd ∧ (∀ operand ∈ operands, right operand.1 operand.2) ∧
        Repeated keyword (operands.map Prod.fst) front := by
  induction bound generalizing tokens exprs with
  | nil =>
      cases read
      exact ⟨[], [], rfl, rfl, by simp, .nil⟩
  | cons token bound induction =>
      rw [readOperands] at read
      split at read
      · rename_i next
        obtain ⟨word, later, rfl, spelled⟩ := is_keyword_of_next next
        obtain ⟨⟨first, afterFirst⟩, readFirst, read⟩ := bind_eq_ok.mp read
        obtain ⟨⟨others, afterOthers⟩, readOthers, finished⟩ := bind_eq_ok.mp read
        cases pure_eq_ok.mp finished
        obtain ⟨front, taken, good⟩ := takes readFirst
        obtain ⟨operands, tail, rfl, rfl, each, repeated⟩ := induction readOthers
        refine ⟨(front, first) :: operands, word :: front ++ tail, ?_, rfl, ?_, .cons spelled repeated⟩
        · rw [List.tail_cons] at taken
          rw [taken, List.cons_append, List.cons_append, List.append_assoc]
        · exact List.forall_mem_cons.mpr ⟨good, each⟩
      · cases read
        exact ⟨[], [], rfl, rfl, by simp, .nil⟩

/-- A chain is read from operands with its keyword between them. -/
theorem Takes.chain (takes : Takes operand right) :
    Takes (readChain scope keyword join operand) fun front expr =>
      ∃ (first : Operand) (others : List Operand) (tail : List Token),
        front = first.1 ++ tail ∧ (∀ operand ∈ first :: others, right operand.1 operand.2) ∧
          Repeated keyword (others.map Prod.fst) tail ∧
            Folded join ((first :: others).map Prod.snd) expr ∧ expr.depth ≤ maxDepth := by
  intro tokens expr rest read
  rw [readChain] at read
  obtain ⟨⟨first, afterFirst⟩, readFirst, read⟩ := bind_eq_ok.mp read
  obtain ⟨⟨others, afterOthers⟩, readOthers, finished⟩ := bind_eq_ok.mp read
  obtain ⟨front, rfl, good⟩ := takes readFirst
  obtain ⟨operands, tail, rfl, rfl, each, repeated⟩ := takes.operands readOthers
  obtain ⟨shallow, rfl, rfl⟩ := bounded_eq_ok.mp finished
  refine ⟨front ++ tail, by rw [List.append_assoc], (front, first), operands, tail, rfl, ?_,
    repeated, folded_iff.mpr rfl, shallow⟩
  exact List.forall_mem_cons.mpr ⟨good, each⟩

/-- A reader takes an operand off the front of any tokens that may come after one. -/
def Accepts (read : Reader Expr) (ends : List Token → Prop) (operand : Operand) : Prop :=
  ∀ rest, ends rest → read (operand.1 ++ rest) = .ok (operand.2, rest)

variable {ends : List Token → Prop}

theorem Grammar.Repeated.onward {parts : List (List Token)}
    (repeated : Repeated keyword parts tokens)
    (continues : ∀ word rest, IsKeyword keyword word → ends (word :: rest)) (ended : ends rest) :
    ends (tokens ++ rest) := by
  cases repeated with
  | nil => exact ended
  | cons spelled _ => exact continues _ _ spelled

theorem read_operands_of_repeated {operands : List Operand} {bound : List Token}
    (continues : ∀ word rest, IsKeyword keyword word → ends (word :: rest))
    (each : ∀ one ∈ operands, Accepts operand ends one)
    (repeated : Repeated keyword (operands.map Prod.fst) tokens) (room : tokens.length ≤ bound.length)
    (ended : ends rest) (last : nextIs keyword rest = false) :
    readOperands keyword operand bound (tokens ++ rest) = .ok (operands.map Prod.snd, rest) := by
  induction operands generalizing tokens bound with
  | nil =>
      cases repeated
      cases bound with
      | nil => rfl
      | cons token bound =>
          rw [List.nil_append, readOperands, last]
          rfl
  | cons first operands induction =>
      obtain ⟨accepts, others⟩ := List.forall_mem_cons.mp each
      rw [List.map_cons] at repeated
      cases repeated with
      | @cons word _ tail _ spelled repeated =>
          rw [List.length_append, List.length_cons] at room
          cases bound with
          | nil => exact absurd room (by simp)
          | cons token bound =>
              rw [List.length_cons] at room
              have onward := repeated.onward continues ended
              rw [List.cons_append, List.cons_append, readOperands, spelled.next_self, if_pos rfl,
                List.tail_cons, List.append_assoc]
              apply bind_eq_ok.mpr ⟨_, accepts _ onward, ?_⟩
              apply bind_eq_ok.mpr ⟨_, induction others repeated (by omega), ?_⟩
              rfl

/-- A chain is read as the tree of its operands, unless that is too deep. -/
theorem read_chain_of_repeated {first : Operand} {others : List Operand}
    (continues : ∀ word rest, IsKeyword keyword word → ends (word :: rest))
    (each : ∀ one ∈ first :: others, Accepts operand ends one)
    (repeated : Repeated keyword (others.map Prod.fst) tokens)
    (ended : ends rest) (last : nextIs keyword rest = false) :
    readChain scope keyword join operand (first.1 ++ tokens ++ rest) =
      bounded (scope.here (first.1 ++ tokens ++ rest))
        (Expr.balanced join first.2 (others.map Prod.snd)) rest := by
  obtain ⟨accepts, acceptOthers⟩ := List.forall_mem_cons.mp each
  have onward := repeated.onward continues ended
  have room : tokens.length ≤ (tokens ++ rest).length := by simp
  have readOthers := read_operands_of_repeated continues acceptOthers repeated room ended last
  rw [readChain, List.append_assoc, accepts _ onward, ok_bind]
  dsimp only
  rw [readOthers, ok_bind]

theorem read_chain_of_folded {first : Operand} {others : List Operand} {expr : Expr}
    (continues : ∀ word rest, IsKeyword keyword word → ends (word :: rest))
    (each : ∀ one ∈ first :: others, Accepts operand ends one)
    (repeated : Repeated keyword (others.map Prod.fst) tokens)
    (folded : Folded join ((first :: others).map Prod.snd) expr) (shallow : expr.depth ≤ maxDepth)
    (ended : ends rest) (last : nextIs keyword rest = false) :
    readChain scope keyword join operand (first.1 ++ tokens ++ rest) = .ok (expr, rest) := by
  rw [List.map_cons] at folded
  rw [read_chain_of_repeated continues each repeated ended last]
  exact bounded_eq_ok.mpr ⟨folded_iff.mp folded ▸ shallow, folded_iff.mp folded, rfl⟩

end Reading

end TagPolicy.Language
