import Mathlib.Algebra.Group.Nat.Defs
import TagPolicy.Cache.Layout
import TagPolicy.Proofs.Cache.Operations
import TagPolicy.Proofs.Outcome

/-!
What the layout of tables writes is read back. `Faithful` is the contract of a reader and its writer:
it takes exactly what was written off the front of any octets. The one thing that is written and not
read back is a condition that is too deep; a list or a record that holds one is refused as a whole.
-/

namespace TagPolicy.Layout

open TagPolicy.Language (maxDepth)
open Outcome (bind_eq_ok pure_eq_ok ok_bind)

theorem read_little_endian_append {count number : Nat} (small : number < 256 ^ count)
    (rest : List UInt8) :
    readLittleEndian count (littleEndian count number ++ rest) = .ok (number, rest) := by
  induction count generalizing number with
  | zero =>
      have none : number = 0 := by simpa using small
      subst none
      rfl
  | succ count induction =>
      have higher : number / 256 < 256 ^ count := by
        rw [Nat.pow_succ] at small
        omega
      rw [littleEndian, List.cons_append, readLittleEndian, induction higher, ok_bind]
      dsimp only
      rw [UInt8.toNat_ofNat', show number % 2 ^ 8 + 256 * (number / 256) = number by omega]
      rfl

theorem read_any_nat_write_nat {number : Nat} (small : number < UInt64.size) (rest : List UInt8) :
    readAnyNat (writeNat number ++ rest) = .ok (number, rest) := by
  rw [writeNat]
  split
  · rename_i short
    have octet : (UInt8.ofNat number).toNat = number := UInt8.toNat_ofNat_of_lt' (by
      have : UInt8.size = 256 := rfl
      omega)
    rw [List.singleton_append, readAnyNat, if_pos (by
      rw [UInt8.lt_iff_toNat_lt, octet]
      exact short), octet]
  · split
    · rename_i two
      exact @read_little_endian_append 2 number two rest
    · split
      · rename_i four
        exact @read_little_endian_append 4 number four rest
      · exact @read_little_endian_append 8 number small rest

theorem read_nat_write_nat {bound number : Nat} (small : number < bound) (wide : bound ≤ UInt64.size)
    (rest : List UInt8) : readNat bound (writeNat number ++ rest) = .ok (number, rest) := by
  rw [readNat, read_any_nat_write_nat (by omega), ok_bind]
  dsimp only
  rw [if_pos small]
  rfl

theorem length_little_endian (count number : Nat) : (littleEndian count number).length = count := by
  induction count generalizing number with
  | zero => rfl
  | succ count induction => rw [littleEndian, List.length_cons, induction]

theorem length_write_nat (number : Nat) :
    (writeNat number).length =
      if number < 251 then 1
      else if number < UInt16.size then 3
      else if number < UInt32.size then 5
      else 9 := by
  rw [writeNat]
  simp only [apply_ite List.length, List.length_cons, length_little_endian, List.length_nil]

/-- A number takes no more octets than the shortest form that has room for it, or any longer one. -/
theorem length_write_nat_le {number octets : Nat}
    (one : 1 ≤ octets) (two : 251 ≤ number → 3 ≤ octets)
    (four : UInt16.size ≤ number → 5 ≤ octets) (eight : UInt32.size ≤ number → 9 ≤ octets) :
    (writeNat number).length ≤ octets := by
  rw [length_write_nat]
  split
  · exact one
  · split
    · exact two (Nat.le_of_not_lt ‹_›)
    · split
      · exact four (Nat.le_of_not_lt ‹_›)
      · exact eight (Nat.le_of_not_lt ‹_›)

theorem length_write_nat_pos (number : Nat) : 0 < (writeNat number).length := by
  rw [length_write_nat]
  repeat' split
  all_goals decide

theorem read_uint32_write_uint32 (word : UInt32) (rest : List UInt8) :
    readUInt32 (writeUInt32 word ++ rest) = .ok (word, rest) := by
  rw [readUInt32, writeUInt32, read_nat_write_nat word.toNat_lt (by decide), ok_bind]
  dsimp only
  rw [UInt32.ofNat_toNat]
  rfl

theorem unfolded_folded (number : Int) : unfolded (folded number) = number := by
  cases number with
  | ofNat number =>
      rw [folded, unfolded, if_pos (by omega)]
      congr 1
      omega
  | negSucc number =>
      rw [folded, unfolded, if_neg (by omega)]
      congr 1
      omega

theorem folded_lt (number : Int64) : folded number.toInt < UInt64.size := by
  have low := number.le_toInt
  have high := number.toInt_lt
  have size : UInt64.size = 2 * 2 ^ 63 := rfl
  cases integer : number.toInt with
  | ofNat number =>
      rw [integer] at high
      rw [folded]
      have same : Int.ofNat number = (number : Int) := rfl
      omega
  | negSucc number =>
      rw [integer] at low
      rw [folded]
      omega

theorem read_int64_write_int64 (number : Int64) (rest : List UInt8) :
    readInt64 (writeInt64 number ++ rest) = .ok (number, rest) := by
  rw [readInt64, writeInt64, read_nat_write_nat (folded_lt number) (Nat.le_refl _), ok_bind]
  dsimp only
  rw [unfolded_folded, Int64.ofInt_toInt]
  rfl

theorem read_bool_write_bool (flag : Bool) (rest : List UInt8) :
    readBool (writeBool flag ++ rest) = .ok (flag, rest) := by
  cases flag <;> rfl

theorem read_octets_append {count : Nat} {octets : List UInt8} (same : octets.length = count)
    (rest : List UInt8) : readOctets count (octets ++ rest) = .ok (octets, rest) := by
  rw [readOctets, ← same, List.take_left, List.drop_left, if_pos rfl]

theorem read_text_write_text {text : String} (fits : (writeText text).length < UInt64.size)
    (rest : List UInt8) : readText (writeText text ++ rest) = .ok (text, rest) := by
  rw [writeText] at fits ⊢
  rw [List.length_append] at fits
  rw [readText, List.append_assoc, readLength, read_nat_write_nat (by omega) (Nat.le_refl _), ok_bind]
  dsimp only
  rw [read_octets_append rfl, ok_bind]
  dsimp only
  rw [Text.text_of_octets_of]
  rfl

/-- A reader takes what its writer wrote off the front of any octets, where the item is valid, and
refuses what was written for any other item. Lengths are recorded in the layout itself, and no more
than 32 bits of them are relied on. -/
structure Faithful {α : Type} (read : Read α) (write : α → List UInt8) (valid : α → Prop) :
    Prop where
  positive : ∀ item, 0 < (write item).length
  reads : ∀ item rest, valid item → (write item).length < UInt32.size →
    read (write item ++ rest) = .ok (item, rest)
  refuses : ∀ item rest, ¬ valid item → (write item).length < UInt32.size →
    ∃ fault, read (write item ++ rest) = .error fault

section Lists

variable {α : Type} {read : Read α} {write : α → List UInt8} {valid : α → Prop}

theorem write_items_cons (item : α) (items : List α) :
    writeItems write (item :: items) = write item ++ writeItems write items := List.flatMap_cons

theorem Faithful.length_le (faithful : Faithful read write valid) (items : List α) :
    items.length ≤ (writeItems write items).length := by
  induction items with
  | nil => exact Nat.zero_le _
  | cons item items induction =>
      have positive := faithful.positive item
      rw [write_items_cons, List.length_cons, List.length_append]
      omega

theorem Faithful.items_read (faithful : Faithful read write valid) {items : List α}
    (all : ∀ item ∈ items, valid item) (fits : (writeItems write items).length < UInt32.size)
    (rest : List UInt8) :
    readItems read items.length (writeItems write items ++ rest) = .ok (items, rest) := by
  induction items with
  | nil => rfl
  | cons item items induction =>
      rw [write_items_cons, List.length_append] at fits
      rw [write_items_cons, List.length_cons, readItems, List.append_assoc,
        faithful.reads item _ (all item (by simp)) (by omega), ok_bind]
      dsimp only
      rw [induction (fun later inside => all later (List.mem_cons_of_mem _ inside)) (by omega),
        ok_bind]
      rfl

theorem Faithful.items_refused (faithful : Faithful read write valid) {items : List α}
    (some : ¬ ∀ item ∈ items, valid item) (fits : (writeItems write items).length < UInt32.size)
    (rest : List UInt8) :
    ∃ fault, readItems read items.length (writeItems write items ++ rest) = .error fault := by
  induction items with
  | nil => exact absurd (fun item inside => absurd inside List.not_mem_nil) some
  | cons item items induction =>
      rw [write_items_cons, List.length_append] at fits
      rw [write_items_cons, List.length_cons, readItems, List.append_assoc]
      by_cases first : valid item
      · rw [faithful.reads item _ first (by omega), ok_bind]
        dsimp only
        obtain ⟨fault, refused⟩ := induction
          (fun all => some (List.forall_mem_cons.mpr ⟨first, all⟩)) (by omega)
        exact ⟨fault, by rw [refused]; rfl⟩
      · obtain ⟨fault, refused⟩ := faithful.refuses item (writeItems write items ++ rest) first
          (by omega)
        exact ⟨fault, by rw [refused]; rfl⟩

/-- A list is read back if all its items are. -/
theorem Faithful.list (faithful : Faithful read write valid) :
    Faithful (readList read) (writeList write) fun items => ∀ item ∈ items, valid item where
  positive items := by
    rw [writeList, List.length_append]
    have := length_write_nat_pos items.length
    omega
  reads items rest all fits := by
    rw [writeList, List.length_append] at fits
    have shorter := faithful.length_le items
    have size : UInt32.size < UInt64.size := by decide
    rw [writeList, readList, List.append_assoc, readLength,
      read_nat_write_nat (by omega) (Nat.le_refl _), ok_bind]
    exact faithful.items_read all (by omega) rest
  refuses items rest some fits := by
    rw [writeList, List.length_append] at fits
    have shorter := faithful.length_le items
    have size : UInt32.size < UInt64.size := by decide
    rw [writeList, readList, List.append_assoc, readLength,
      read_nat_write_nat (by omega) (Nat.le_refl _), ok_bind]
    exact faithful.items_refused some (by omega) rest

end Lists

section Choices

/-- The number of an alternative in front of its fields. -/
theorem read_nat_choice {choice : Nat} (small : choice < UInt32.size) (fields rest : List UInt8) :
    readNat UInt32.size (writeNat choice ++ fields ++ rest) = .ok (choice, fields ++ rest) := by
  rw [List.append_assoc]
  exact read_nat_write_nat small (by decide) (fields ++ rest)

/-- An alternative with one field is read as its field is. -/
theorem read_field {α β : Type} {read : Read α} {octets rest : List UInt8} {item : α} (make : α → β)
    (reads : read (octets ++ rest) = .ok (item, rest)) :
    (read (octets ++ rest) >>= fun answer => pure (make answer.1, answer.2)) =
      .ok (make item, rest) := by
  rw [reads]
  rfl

theorem read_value_write_value {value : Value} (fits : (writeValue value).length < UInt32.size)
    (rest : List UInt8) : readValue (writeValue value ++ rest) = .ok (value, rest) := by
  have size : UInt32.size < UInt64.size := by decide
  cases value with
  | text content =>
      rw [writeValue, List.length_append] at fits
      rw [writeValue, readValue, read_nat_choice (by decide), ok_bind]
      exact read_field Value.text (read_text_write_text (by omega) rest)
  | integer number =>
      rw [writeValue, readValue, read_nat_choice (by decide), ok_bind]
      exact read_field Value.integer (read_int64_write_int64 _ rest)
  | boolean flag =>
      rw [writeValue, readValue, read_nat_choice (by decide), ok_bind]
      exact read_field Value.boolean (read_bool_write_bool _ rest)

theorem read_comparison_write_comparison (comparison : Comparison) (rest : List UInt8) :
    readComparison (writeComparison comparison ++ rest) = .ok (comparison, rest) := by
  cases comparison <;>
    rw [writeComparison, readComparison, read_nat_write_nat (by decide) (by decide), ok_bind] <;> rfl

theorem read_effect_write_effect (effect : Effect) (rest : List UInt8) :
    readEffect (writeEffect effect ++ rest) = .ok (effect, rest) := by
  cases effect <;>
    rw [writeEffect, readEffect, read_nat_write_nat (by decide) (by decide), ok_bind] <;> rfl

theorem read_operation_write_operation {operation : Operation}
    (fits : (writeOperation operation).length < UInt32.size) (rest : List UInt8) :
    readOperation (writeOperation operation ++ rest) = .ok (operation, rest) := by
  have size : UInt32.size < UInt64.size := by decide
  cases operation with
  | all count =>
      rw [writeOperation, readOperation, read_nat_choice (by decide), ok_bind]
      exact read_field Operation.all (read_uint32_write_uint32 _ rest)
  | any count =>
      rw [writeOperation, readOperation, read_nat_choice (by decide), ok_bind]
      exact read_field Operation.any (read_uint32_write_uint32 _ rest)
  | not =>
      rw [writeOperation, readOperation, read_nat_write_nat (by decide) (by decide), ok_bind]
      rfl
  | tag name =>
      rw [writeOperation, List.length_append] at fits
      rw [writeOperation, readOperation, read_nat_choice (by decide), ok_bind]
      exact read_field Operation.tag (read_text_write_text (by omega) rest)
  | attr name comparison value =>
      simp only [writeOperation, List.length_append] at fits
      rw [writeOperation, readOperation, read_nat_choice (by decide), ok_bind]
      rw [List.append_assoc, List.append_assoc]
      change (readText (writeText name ++ (writeComparison comparison ++ (writeValue value ++ rest)))
        >>= fun name => readComparison name.2 >>= fun comparison => readValue comparison.2 >>=
          fun value => pure (Operation.attr name.1 comparison.1 value.1, value.2)) = _
      rw [read_text_write_text (by omega), ok_bind]
      dsimp only
      rw [read_comparison_write_comparison, ok_bind]
      dsimp only
      rw [read_value_write_value (by omega), ok_bind]
      rfl
  | const value =>
      rw [writeOperation, readOperation, read_nat_choice (by decide), ok_bind]
      exact read_field Operation.const (read_bool_write_bool _ rest)
  | predicate index =>
      rw [writeOperation, readOperation, read_nat_choice (by decide), ok_bind]
      exact read_field Operation.predicate (read_uint32_write_uint32 _ rest)

theorem length_write_operation_pos (operation : Operation) :
    0 < (writeOperation operation).length := by
  have positive := length_write_nat_pos
  cases operation with
  | not => exact positive 2
  | _ =>
      rw [writeOperation, List.length_append]
      exact Nat.add_pos_left (positive _) _

theorem faithful_operation :
    Faithful readOperation writeOperation fun _ => True where
  positive := length_write_operation_pos
  reads _ rest _ fits := read_operation_write_operation fits rest
  refuses _ _ invalid := absurd trivial invalid

end Choices

section Tables

theorem faithful_condition :
    Faithful readCondition writeCondition fun condition => condition.depth ≤ maxDepth where
  positive condition := faithful_operation.list.positive condition.operations
  reads condition rest shallow fits := by
    have operations := faithful_operation.list.reads condition.operations rest (by simp) fits
    have count : condition.operations.length < UInt32.size := by
      have shorter := faithful_operation.length_le condition.operations
      rw [writeCondition, writeList, List.length_append] at fits
      omega
    rw [writeCondition, readCondition, operations, ok_bind]
    dsimp only
    rw [Condition.of_operations_operations (Condition.narrow_of_length count), if_pos shallow]
    rfl
  refuses condition rest deep fits := by
    have operations := faithful_operation.list.reads condition.operations rest (by simp) fits
    have count : condition.operations.length < UInt32.size := by
      have shorter := faithful_operation.length_le condition.operations
      rw [writeCondition, writeList, List.length_append] at fits
      omega
    refine ⟨.operations .tooDeep, ?_⟩
    rw [writeCondition, readCondition, operations, ok_bind]
    dsimp only
    rw [Condition.of_operations_operations (Condition.narrow_of_length count), if_neg deep]

theorem faithful_predicate :
    Faithful readPredicate writePredicate fun predicate => predicate.condition.depth ≤ maxDepth where
  positive predicate := by
    have := faithful_condition.positive predicate.condition
    rw [writePredicate, List.length_append]
    omega
  reads predicate rest shallow fits := by
    have size : UInt32.size < UInt64.size := by decide
    rw [writePredicate, List.length_append] at fits
    rw [writePredicate, readPredicate, List.append_assoc, read_text_write_text (by omega), ok_bind]
    dsimp only
    rw [faithful_condition.reads _ _ shallow (by omega), ok_bind]
    rfl
  refuses predicate rest deep fits := by
    have size : UInt32.size < UInt64.size := by decide
    rw [writePredicate, List.length_append] at fits
    obtain ⟨fault, refused⟩ := faithful_condition.refuses predicate.condition rest deep (by omega)
    refine ⟨fault, ?_⟩
    rw [writePredicate, readPredicate, List.append_assoc, read_text_write_text (by omega), ok_bind]
    dsimp only
    rw [refused]
    rfl

theorem faithful_rule :
    Faithful readRule writeRule fun rule => rule.condition.depth ≤ maxDepth where
  positive rule := by
    have := faithful_condition.positive rule.condition
    rw [writeRule, List.length_append]
    omega
  reads rule rest shallow fits := by
    rw [writeRule, List.length_append] at fits
    rw [writeRule, readRule, List.append_assoc, faithful_condition.reads _ _ shallow (by omega),
      ok_bind]
    dsimp only
    rw [List.append_assoc, read_effect_write_effect, ok_bind]
    dsimp only
    rw [List.append_assoc, read_uint32_write_uint32, ok_bind]
    dsimp only
    rw [read_uint32_write_uint32, ok_bind]
    rfl
  refuses rule rest deep fits := by
    rw [writeRule, List.length_append] at fits
    obtain ⟨fault, refused⟩ := faithful_condition.refuses rule.condition
      (writeEffect rule.effect ++ (writeUInt32 rule.order ++ writeUInt32 rule.line) ++ rest) deep
      (by omega)
    refine ⟨fault, ?_⟩
    rw [writeRule, readRule, List.append_assoc, refused]
    rfl

def Shallow (table : Table) : Prop :=
  (∀ predicate ∈ table.predicates, predicate.condition.depth ≤ maxDepth) ∧
    ∀ rule ∈ table.rules, rule.condition.depth ≤ maxDepth

theorem faithful_table : Faithful readTable writeTable Shallow where
  positive table := by
    have := faithful_predicate.list.positive table.predicates
    rw [writeTable, List.length_append, List.length_append]
    omega
  reads table rest shallow fits := by
    have size : UInt32.size < UInt64.size := by decide
    rw [writeTable, List.length_append, List.length_append] at fits
    rw [writeTable, readTable, List.append_assoc, read_text_write_text (by omega), ok_bind]
    dsimp only
    rw [List.append_assoc, faithful_predicate.list.reads _ _ shallow.1 (by omega), ok_bind]
    dsimp only
    rw [faithful_rule.list.reads _ _ shallow.2 (by omega), ok_bind]
    rfl
  refuses table rest deep fits := by
    have size : UInt32.size < UInt64.size := by decide
    rw [writeTable, List.length_append, List.length_append] at fits
    rw [writeTable, readTable, List.append_assoc, read_text_write_text (by omega), ok_bind]
    dsimp only
    rw [List.append_assoc]
    by_cases predicates : ∀ predicate ∈ table.predicates, predicate.condition.depth ≤ maxDepth
    · rw [faithful_predicate.list.reads _ _ predicates (by omega), ok_bind]
      dsimp only
      obtain ⟨fault, refused⟩ := faithful_rule.list.refuses table.rules rest
        (fun rules => deep ⟨predicates, rules⟩) (by omega)
      exact ⟨fault, by rw [refused]; rfl⟩
    · obtain ⟨fault, refused⟩ := faithful_predicate.list.refuses table.predicates
        (writeList writeRule table.rules ++ rest) predicates (by omega)
      exact ⟨fault, by rw [refused]; rfl⟩

/-- The octets of a table alone give back the table, if no condition of it is too deep. -/
theorem read_whole_write_table {table : Table} (fits : (writeTable table).length < UInt32.size) :
    (Shallow table → readWhole readTable (writeTable table) = .ok table) ∧
      (¬ Shallow table → ∃ fault, readWhole readTable (writeTable table) = .error fault) := by
  constructor
  · intro shallow
    have read := faithful_table.reads table [] shallow fits
    rw [List.append_nil] at read
    rw [readWhole, read]
    rfl
  · intro deep
    obtain ⟨fault, refused⟩ := faithful_table.refuses table [] deep fits
    rw [List.append_nil] at refused
    exact ⟨fault, by rw [readWhole, refused]; rfl⟩

end Tables

end TagPolicy.Layout
