import TagPolicy.Proofs.Cache.Layout

/-!
Whatever octets an item is read from, writing it again takes no more of them. `Thrifty` is the
contract of a reader and its writer for octets that nobody need have written: numbers may be longer
than needed, and operations may come in any order that builds a condition.
-/

namespace TagPolicy.Layout

open TagPolicy.Language (maxDepth)
open Outcome (bind_eq_ok pure_eq_ok)

/-- A reader gives back only valid items, and writing an item takes no more octets than reading it
has taken. -/
def Thrifty {α : Type} (read : Read α) (write : α → List UInt8) (valid : α → Prop) : Prop :=
  ∀ ⦃octets item rest⦄, read octets = .ok (item, rest) →
    valid item ∧ (write item).length + rest.length ≤ octets.length

section Numbers

theorem of_read_little_endian {count number : Nat} {octets rest : List UInt8}
    (read : readLittleEndian count octets = .ok (number, rest)) :
    number < 256 ^ count ∧ count + rest.length = octets.length := by
  induction count generalizing octets number rest with
  | zero =>
      cases read
      simp
  | succ count induction =>
      cases octets with
      | nil => cases read
      | cons octet octets =>
          obtain ⟨⟨higher, after⟩, readHigher, finished⟩ := bind_eq_ok.mp read
          cases pure_eq_ok.mp finished
          obtain ⟨small, length⟩ := induction readHigher
          have low := octet.toNat_lt
          rw [Nat.pow_succ, List.length_cons]
          omega

theorem thrifty_any_nat : Thrifty readAnyNat writeNat fun number => number < UInt64.size := by
  intro octets number rest read
  have sizes : 251 < UInt64.size ∧ UInt16.size = 256 ^ 2 ∧ UInt32.size = 256 ^ 4 ∧
    UInt64.size = 256 ^ 8 := by decide
  -- each form has room for its own numbers, so no shorter form takes more octets
  have fits : ∀ taken, (writeNat number).length ≤ taken → taken + rest.length ≤ octets.length →
      (writeNat number).length + rest.length ≤ octets.length := by
    intro taken short enough
    omega
  cases octets with
  | nil => cases read
  | cons first octets =>
      rw [readAnyNat] at read
      rw [List.length_cons] at fits
      split at read
      · rename_i small
        cases read
        rw [UInt8.lt_iff_toNat_lt] at small
        have short : first.toNat < 251 := small
        refine ⟨by omega, fits 1 ?_ (by omega)⟩
        apply length_write_nat_le <;> omega
      · split at read
        · obtain ⟨small, length⟩ := of_read_little_endian read
          refine ⟨by omega, fits 3 ?_ (by omega)⟩
          apply length_write_nat_le <;> omega
        · split at read
          · obtain ⟨small, length⟩ := of_read_little_endian read
            refine ⟨by omega, fits 5 ?_ (by omega)⟩
            apply length_write_nat_le <;> omega
          · split at read
            · obtain ⟨small, length⟩ := of_read_little_endian read
              refine ⟨by omega, fits 9 ?_ (by omega)⟩
              apply length_write_nat_le <;> omega
            · cases read

theorem thrifty_nat (bound : Nat) : Thrifty (readNat bound) writeNat fun number => number < bound := by
  intro octets number rest read
  obtain ⟨⟨found, after⟩, readFound, finished⟩ := bind_eq_ok.mp read
  dsimp only at finished
  split at finished
  · cases pure_eq_ok.mp finished
    exact ⟨‹_›, (thrifty_any_nat readFound).2⟩
  · cases finished

theorem thrifty_uint32 : Thrifty readUInt32 writeUInt32 fun _ => True := by
  intro octets word rest read
  obtain ⟨⟨number, after⟩, readNumber, finished⟩ := bind_eq_ok.mp read
  cases pure_eq_ok.mp finished
  obtain ⟨small, length⟩ := thrifty_nat UInt32.size readNumber
  rw [writeUInt32, UInt32.toNat_ofNat_of_lt' small]
  exact ⟨trivial, length⟩

theorem folded_unfolded (number : Nat) : folded (unfolded number) = number := by
  rw [unfolded]
  split
  · rw [folded]
    omega
  · rw [folded]
    omega

theorem thrifty_int64 : Thrifty readInt64 writeInt64 fun _ => True := by
  intro octets integer rest read
  obtain ⟨⟨number, after⟩, readNumber, finished⟩ := bind_eq_ok.mp read
  cases pure_eq_ok.mp finished
  obtain ⟨small, length⟩ := thrifty_nat UInt64.size readNumber
  have size : UInt64.size = 2 * 2 ^ 63 := rfl
  have low : -2 ^ 63 ≤ unfolded number ∧ unfolded number < 2 ^ 63 := by
    simp only [unfolded, Int.ofNat_eq_natCast]
    split <;> omega
  rw [writeInt64, Int64.toInt_ofInt_of_le low.1 low.2, folded_unfolded]
  exact ⟨trivial, length⟩

theorem thrifty_bool : Thrifty readBool writeBool fun _ => True := by
  intro octets flag rest read
  unfold readBool at read
  split at read <;> cases read <;> exact ⟨trivial, Nat.le_of_eq (Nat.add_comm _ _)⟩

theorem of_read_octets {count : Nat} {octets front rest : List UInt8}
    (read : readOctets count octets = .ok (front, rest)) :
    front.length = count ∧ count + rest.length = octets.length := by
  rw [readOctets] at read
  split at read
  · rename_i enough
    cases read
    have whole := congrArg List.length (List.take_append_drop count octets)
    rw [List.length_append, enough] at whole
    exact ⟨enough, whole⟩
  · cases read

theorem thrifty_text : Thrifty readText writeText fun _ => True := by
  intro octets text rest read
  obtain ⟨⟨length, afterLength⟩, readLength, continues⟩ := bind_eq_ok.mp read
  obtain ⟨⟨content, afterContent⟩, readContent, finished⟩ := bind_eq_ok.mp continues
  dsimp only at finished
  split at finished
  · rename_i found
    cases pure_eq_ok.mp finished
    obtain ⟨-, shorter⟩ := thrifty_nat _ readLength
    obtain ⟨same, whole⟩ := of_read_octets readContent
    rw [writeText, Text.octets_of_of_text_of found, List.length_append, same]
    exact ⟨trivial, by omega⟩
  · cases finished

end Numbers

section Lists

variable {α : Type} {read : Read α} {write : α → List UInt8} {valid : α → Prop}

theorem Thrifty.items (thrifty : Thrifty read write valid) {count : Nat} {items : List α}
    {octets rest : List UInt8} (reads : readItems read count octets = .ok (items, rest)) :
    items.length = count ∧ (∀ item ∈ items, valid item) ∧
      (writeItems write items).length + rest.length ≤ octets.length := by
  induction count generalizing octets items with
  | zero =>
      cases reads
      exact ⟨rfl, by simp, by simp [writeItems]⟩
  | succ count induction =>
      obtain ⟨⟨item, afterItem⟩, readItem, continues⟩ := bind_eq_ok.mp reads
      obtain ⟨⟨others, afterOthers⟩, readOthers, finished⟩ := bind_eq_ok.mp continues
      cases pure_eq_ok.mp finished
      obtain ⟨first, shorter⟩ := thrifty readItem
      obtain ⟨length, later, shortest⟩ := induction readOthers
      refine ⟨by rw [List.length_cons, length], List.forall_mem_cons.mpr ⟨first, later⟩, ?_⟩
      rw [write_items_cons, List.length_append]
      omega

theorem Thrifty.list (thrifty : Thrifty read write valid) :
    Thrifty (readList read) (writeList write) fun items => ∀ item ∈ items, valid item := by
  intro octets items rest reads
  obtain ⟨⟨length, afterLength⟩, readLength, readAll⟩ := bind_eq_ok.mp reads
  obtain ⟨-, shorter⟩ := thrifty_nat _ readLength
  obtain ⟨same, all, shortest⟩ := thrifty.items readAll
  rw [writeList, List.length_append, same]
  exact ⟨all, by omega⟩

end Lists

section Choices

theorem thrifty_comparison : Thrifty readComparison writeComparison fun _ => True := by
  intro octets comparison rest read
  obtain ⟨answer, readChoice, finished⟩ := bind_eq_ok.mp read
  split at finished
  · cases finished
    exact ⟨trivial, (thrifty_nat _ readChoice).2⟩
  · cases finished
    exact ⟨trivial, (thrifty_nat _ readChoice).2⟩
  · cases finished

theorem thrifty_effect : Thrifty readEffect writeEffect fun _ => True := by
  intro octets effect rest read
  obtain ⟨answer, readChoice, finished⟩ := bind_eq_ok.mp read
  split at finished
  · cases finished
    exact ⟨trivial, (thrifty_nat _ readChoice).2⟩
  · cases finished
    exact ⟨trivial, (thrifty_nat _ readChoice).2⟩
  · cases finished

/-- An alternative with one field takes no more octets than its number and its field. -/
theorem Thrifty.field {α β : Type} {read : Read α} {write : α → List UInt8} {valid : α → Prop}
    (thrifty : Thrifty read write valid) {make : α → β} {bound choice : Nat}
    {octets after rest : List UInt8} {result : β}
    (chosen : readNat bound octets = .ok (choice, after))
    (reads : (read after >>= fun answer => pure (make answer.1, answer.2)) = .ok (result, rest)) :
    ∃ item, result = make item ∧
      (writeNat choice ++ write item).length + rest.length ≤ octets.length := by
  obtain ⟨⟨item, afterItem⟩, readItem, finished⟩ := bind_eq_ok.mp reads
  cases pure_eq_ok.mp finished
  obtain ⟨-, shorter⟩ := thrifty_nat bound chosen
  obtain ⟨-, shortest⟩ := thrifty readItem
  refine ⟨item, rfl, ?_⟩
  rw [List.length_append]
  dsimp only
  omega

theorem thrifty_value : Thrifty readValue writeValue fun _ => True := by
  intro octets value rest read
  obtain ⟨answer, readChoice, finished⟩ := bind_eq_ok.mp read
  split at finished
  · obtain ⟨content, rfl, shortest⟩ := thrifty_text.field readChoice finished
    exact ⟨trivial, shortest⟩
  · obtain ⟨number, rfl, shortest⟩ := thrifty_int64.field readChoice finished
    exact ⟨trivial, shortest⟩
  · obtain ⟨flag, rfl, shortest⟩ := thrifty_bool.field readChoice finished
    exact ⟨trivial, shortest⟩
  · cases finished

theorem thrifty_operation : Thrifty readOperation writeOperation fun _ => True := by
  intro octets operation rest read
  obtain ⟨answer, readChoice, finished⟩ := bind_eq_ok.mp read
  split at finished
  · obtain ⟨count, rfl, shortest⟩ := thrifty_uint32.field readChoice finished
    exact ⟨trivial, shortest⟩
  · obtain ⟨count, rfl, shortest⟩ := thrifty_uint32.field readChoice finished
    exact ⟨trivial, shortest⟩
  · cases finished
    exact ⟨trivial, (thrifty_nat _ readChoice).2⟩
  · obtain ⟨name, rfl, shortest⟩ := thrifty_text.field readChoice finished
    exact ⟨trivial, shortest⟩
  · obtain ⟨⟨name, afterName⟩, readName, continues⟩ := bind_eq_ok.mp finished
    obtain ⟨⟨comparison, afterComparison⟩, readOperator, ends⟩ := bind_eq_ok.mp continues
    obtain ⟨⟨value, afterValue⟩, readOperand, last⟩ := bind_eq_ok.mp ends
    cases pure_eq_ok.mp last
    have shorter := (thrifty_nat _ readChoice).2
    have named := (thrifty_text readName).2
    have compared := (thrifty_comparison readOperator).2
    have denoted := (thrifty_value readOperand).2
    simp only [writeOperation, List.length_append] at shorter named compared denoted ⊢
    exact ⟨trivial, by omega⟩
  · obtain ⟨value, rfl, shortest⟩ := thrifty_bool.field readChoice finished
    exact ⟨trivial, shortest⟩
  · obtain ⟨index, rfl, shortest⟩ := thrifty_uint32.field readChoice finished
    exact ⟨trivial, shortest⟩
  · cases finished

end Choices

section Tables

theorem thrifty_condition :
    Thrifty readCondition writeCondition fun condition => condition.depth ≤ maxDepth := by
  intro octets condition rest read
  obtain ⟨⟨operations, after⟩, readAll, finished⟩ := bind_eq_ok.mp read
  obtain ⟨-, shorter⟩ := thrifty_operation.list readAll
  dsimp only at finished
  split at finished
  · rename_i built
    cases pure_eq_ok.mp finished
    obtain ⟨same, -, shallow⟩ := Condition.of_of_operations built
    rw [writeCondition, same]
    exact ⟨shallow, shorter⟩
  · cases finished

theorem thrifty_predicate :
    Thrifty readPredicate writePredicate fun predicate =>
      predicate.condition.depth ≤ maxDepth := by
  intro octets predicate rest read
  obtain ⟨⟨name, afterName⟩, readName, continues⟩ := bind_eq_ok.mp read
  obtain ⟨⟨condition, afterCondition⟩, readBody, finished⟩ := bind_eq_ok.mp continues
  cases pure_eq_ok.mp finished
  have named := (thrifty_text readName).2
  obtain ⟨shallow, shorter⟩ := thrifty_condition readBody
  simp only [writePredicate, List.length_append]
  exact ⟨shallow, by omega⟩

theorem thrifty_rule :
    Thrifty readRule writeRule fun rule => rule.condition.depth ≤ maxDepth := by
  intro octets rule rest read
  obtain ⟨⟨condition, afterCondition⟩, readBody, continues⟩ := bind_eq_ok.mp read
  obtain ⟨⟨effect, afterEffect⟩, readKind, places⟩ := bind_eq_ok.mp continues
  obtain ⟨⟨order, afterOrder⟩, readOrder, ends⟩ := bind_eq_ok.mp places
  obtain ⟨⟨line, afterLine⟩, readLine, finished⟩ := bind_eq_ok.mp ends
  cases pure_eq_ok.mp finished
  obtain ⟨shallow, shorter⟩ := thrifty_condition readBody
  have kind := (thrifty_effect readKind).2
  have ordered := (thrifty_uint32 readOrder).2
  have lined := (thrifty_uint32 readLine).2
  simp only [writeRule, List.length_append]
  exact ⟨shallow, by omega⟩

theorem thrifty_table : Thrifty readTable writeTable Shallow := by
  intro octets table rest read
  obtain ⟨⟨schemaVersion, afterVersion⟩, readVersion, continues⟩ := bind_eq_ok.mp read
  obtain ⟨⟨predicates, afterPredicates⟩, readPredicates, ends⟩ := bind_eq_ok.mp continues
  obtain ⟨⟨rules, afterRules⟩, readRules, finished⟩ := bind_eq_ok.mp ends
  cases pure_eq_ok.mp finished
  have version := (thrifty_text readVersion).2
  obtain ⟨shallowPredicates, fewer⟩ := thrifty_predicate.list readPredicates
  obtain ⟨shallowRules, fewest⟩ := thrifty_rule.list readRules
  simp only [writeTable, List.length_append]
  exact ⟨⟨shallowPredicates, shallowRules⟩, by omega⟩

theorem Thrifty.whole {α : Type} {read : Read α} {write : α → List UInt8} {valid : α → Prop}
    (thrifty : Thrifty read write valid) {octets : List UInt8} {item : α}
    (reads : readWhole read octets = .ok item) :
    valid item ∧ (write item).length ≤ octets.length := by
  obtain ⟨answer, readFound, finished⟩ := bind_eq_ok.mp reads
  split at finished
  · cases pure_eq_ok.mp finished
    exact thrifty readFound
  · cases finished

end Tables

end TagPolicy.Layout
