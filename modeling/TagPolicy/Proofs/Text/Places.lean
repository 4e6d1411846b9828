import Mathlib.Data.List.Induction
import TagPolicy.Text.Position

/-!
Places in a text. A place lies between two characters of the text or at one of its ends; its offset
is a character boundary, and its line and column count the characters before it. Further on in the
text the line or, on the same line, the column is greater, so both together tell places apart.
-/

namespace TagPolicy.Text.Position

variable {text : String} {front back middle : List Char} {position other : Position}

/-- The place of a text between the first of its characters and the others. -/
structure Between (text : String) (front back : List Char) (position : Position) : Prop where
  split : text.toList = front ++ back
  offset : position.offset = (String.ofList front).utf8ByteSize
  line : position.line = 1 + front.count '\n'
  column : position.column = 1 + (front.reverse.takeWhile (· ≠ '\n')).length

def IsPlace (text : String) (position : Position) : Prop :=
  ∃ front back, Between text front back position

def Precedes (first second : Position) : Prop :=
  first.line < second.line ∨ first.line = second.line ∧ first.column < second.column

section Counting

theorem utf8ByteSize_cons (char : Char) (chars : List Char) :
    (String.ofList (char :: chars)).utf8ByteSize =
      char.utf8Size + (String.ofList chars).utf8ByteSize := by
  rw [← List.singleton_append, String.ofList_append, String.utf8ByteSize_append,
    ← String.singleton_eq_ofList, String.utf8ByteSize_singleton]

theorem offset_after (position : Position) (chars : List Char) :
    (position.after chars).offset = position.offset + (String.ofList chars).utf8ByteSize := by
  induction chars generalizing position with
  | nil => simp
  | cons char chars induction =>
      have octets : (position.next char).offset = position.offset + char.utf8Size := by
        rw [next]
        split <;> rfl
      rw [after_cons, induction, utf8ByteSize_cons, octets, Nat.add_assoc]

theorem line_after (position : Position) (chars : List Char) :
    (position.after chars).line = position.line + chars.count '\n' := by
  induction chars generalizing position with
  | nil => rfl
  | cons char chars induction =>
      rw [after_cons, induction, List.count_cons, next]
      by_cases feed : char = '\n'
      · simp [feed]
        omega
      · simp [feed]

/-- The characters since the last line feed are found from the end, so the induction is from there. -/
theorem column_after (chars : List Char) :
    (start.after chars).column = 1 + (chars.reverse.takeWhile (· ≠ '\n')).length := by
  induction chars using List.reverseRecOn with
  | nil => rfl
  | append_singleton chars char induction =>
      rw [after_append, after_cons, after_nil, List.reverse_append, next]
      by_cases feed : char = '\n'
      · simp [feed]
      · simp [feed, induction]
        omega

theorem between_after (split : text.toList = front ++ back) :
    Between text front back (start.after front) where
  split := split
  offset := by rw [offset_after, start, Nat.zero_add]
  line := line_after start front
  column := column_after front

/-- The characters since the last line feed, found from the end, and the place before them. -/
theorem exists_last_line (chars : List Char) :
    ∃ front line, chars = front ++ line ∧ '\n' ∉ line ∧ (start.after front).column = 1 := by
  induction chars using List.reverseRecOn with
  | nil => exact ⟨[], [], rfl, List.not_mem_nil, rfl⟩
  | append_singleton chars char induction =>
      by_cases feed : char = '\n'
      · refine ⟨chars ++ [char], [], (List.append_nil _).symm, List.not_mem_nil, ?_⟩
        rw [after_append, after_cons, after_nil, next, if_pos feed]
      · obtain ⟨front, line, rfl, sameLine, first⟩ := induction
        refine ⟨front, line ++ [char], List.append_assoc .., ?_, first⟩
        simp [sameLine, Ne.symm feed]

/-- The line of a place begins at a place, from which on its column is counted. -/
theorem Between.line_start (between : Between text front back position) :
    ∃ first, IsPlace text first ∧ first.line = position.line ∧ first.column = 1 ∧
      first.offset ≤ position.offset := by
  obtain ⟨before, line, rfl, sameLine, leftmost⟩ := exists_last_line front
  have begins := between_after (between.split.trans (List.append_assoc ..))
  refine ⟨_, ⟨_, _, begins⟩, ?_, leftmost, ?_⟩
  · rw [begins.line, between.line, List.count_append, List.count_eq_zero.mpr sameLine, Nat.add_zero]
  · rw [begins.offset, between.offset, String.ofList_append, String.utf8ByteSize_append]
    exact Nat.le_add_right _ _

theorem Between.unique (between : Between text front back position)
    (also : Between text front middle other) : position = other := by
  obtain ⟨-, offset, line, column⟩ := between
  obtain ⟨-, otherOffset, otherLine, otherColumn⟩ := also
  cases position
  cases other
  simp_all

end Counting

section Boundaries

theorem Between.boundary (between : Between text front back position) :
    String.Pos.Raw.IsValid text ⟨position.offset⟩ := by
  apply String.Pos.Raw.isValid_iff_exists_append.mpr
  refine ⟨String.ofList front, String.ofList back, ?_, ?_⟩
  · rw [← String.ofList_append, ← between.split, String.ofList_toList]
  · rw [between.offset]
    rfl

theorem chars_before_append (front back : List Char) :
    charsBefore (String.ofList front).utf8ByteSize (front ++ back) = front := by
  induction front with
  | nil =>
      cases back with
      | nil => rfl
      | cons char back =>
          have positive := char.utf8Size_pos
          simp [charsBefore]
          omega
  | cons char front induction =>
      rw [List.cons_append, charsBefore, utf8ByteSize_cons, if_pos (Nat.le_add_right _ _),
        Nat.add_sub_cancel_left, induction]

/-- Line and column of a place are those of its offset. -/
theorem Between.eq_of_offset (between : Between text front back position) :
    position = ofOffset text position.offset := by
  have same : ofOffset text position.offset = start.after front := by
    rw [ofOffset, between.offset, between.split, chars_before_append]
  rw [same]
  exact between.unique (between_after between.split)

theorem exists_between {offset : Nat} (valid : String.Pos.Raw.IsValid text ⟨offset⟩) :
    ∃ front back, Between text front back (ofOffset text offset) ∧
      (ofOffset text offset).offset = offset := by
  obtain ⟨front, back, rfl, ends⟩ := String.Pos.Raw.isValid_iff_exists_append.mp valid
  have split : (front ++ back).toList = front.toList ++ back.toList := String.toList_append
  have between := between_after split
  have same : (start.after front.toList).offset = offset := by
    rw [between.offset, String.ofList_toList]
    exact (congrArg String.Pos.Raw.byteIdx ends).symm
  have located := between.eq_of_offset
  rw [same] at located
  rw [← located]
  exact ⟨_, _, between, same⟩

end Boundaries

section Order

variable {rest : List Char}

theorem Between.precedes (between : Between text front back position)
    (further : Between text (front ++ middle) rest other) (more : middle ≠ []) :
    position.Precedes other := by
  rw [Precedes, between.line, between.column, further.line, further.column, List.count_append,
    List.reverse_append]
  by_cases feed : '\n' ∈ middle
  · have positive := List.count_pos_iff.mpr feed
    left
    omega
  · have sameLine := List.count_eq_zero.mpr feed
    have others : ∀ char ∈ middle.reverse, decide (char ≠ '\n') = true := by
      intro char inside
      apply decide_eq_true
      rintro rfl
      exact feed (List.mem_reverse.mp inside)
    have present := List.length_pos_iff.mpr more
    right
    rw [sameLine, List.takeWhile_append_of_pos others, List.length_append, List.length_reverse]
    omega

/-- The smaller of two character boundaries has the earlier line and column. -/
theorem precedes_of_offset {first second : Nat} (valid : String.Pos.Raw.IsValid text ⟨first⟩)
    (also : String.Pos.Raw.IsValid text ⟨second⟩) (less : first < second) :
    (ofOffset text first).Precedes (ofOffset text second) := by
  obtain ⟨front, back, between, offset⟩ := exists_between valid
  obtain ⟨longer, rest, further, longerOffset⟩ := exists_between also
  have octets := between.offset
  have moreOctets := further.offset
  rw [offset] at octets
  rw [longerOffset] at moreOctets
  have isFront : front <+: text.toList := between.split ▸ List.prefix_append _ _
  have isLonger : longer <+: text.toList := further.split ▸ List.prefix_append _ _
  rcases List.prefix_or_prefix_of_prefix isFront isLonger with ⟨middle, rfl⟩ | ⟨middle, rfl⟩
  · apply between.precedes further
    rintro rfl
    rw [List.append_nil] at moreOctets
    omega
  · rw [String.ofList_append, String.utf8ByteSize_append] at octets
    omega

theorem Precedes.distinct {first second : Position} (precedes : first.Precedes second) :
    ¬(first.line = second.line ∧ first.column = second.column) := by
  obtain earlier | ⟨-, earlier⟩ := precedes <;> omega

/-- Line and column tell character boundaries apart. -/
theorem offset_of_line_column {first second : Nat} (valid : String.Pos.Raw.IsValid text ⟨first⟩)
    (also : String.Pos.Raw.IsValid text ⟨second⟩)
    (line : (ofOffset text first).line = (ofOffset text second).line)
    (column : (ofOffset text first).column = (ofOffset text second).column) : first = second := by
  rcases Nat.lt_trichotomy first second with less | same | more
  · exact absurd ⟨line, column⟩ (precedes_of_offset valid also less).distinct
  · exact same
  · exact absurd ⟨line.symm, column.symm⟩ (precedes_of_offset also valid more).distinct

end Order

end TagPolicy.Text.Position
