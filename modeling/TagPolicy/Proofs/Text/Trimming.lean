import Mathlib.Data.List.DropRight
import TagPolicy.Text.Blank

/-!
Trimmed texts: trimming takes nothing more off them, and adds nothing to what it leaves.
-/

namespace TagPolicy.Text

theorem not_blank_of_dropWhile (chars : List Char) {char : Char}
    (first : (chars.dropWhile isBlank).head? = some char) : isBlank char = false := by
  have head := List.head?_dropWhile_not isBlank chars
  rw [first] at head
  simpa using head

theorem trim_trim (text : String) : trim (trim text) = trim text := by
  simp only [trim, String.toList_ofList]
  congr 1
  apply trim_chars_eq_self
  · intro char first
    obtain ⟨rest, split⟩ := List.rdropWhile_prefix isBlank (text.toList.dropWhile isBlank)
    apply not_blank_of_dropWhile text.toList
    have trimmed : (text.toList.dropWhile isBlank).rdropWhile isBlank =
      trimChars text.toList := rfl
    rw [← split, trimmed, List.head?_append, first, Option.some_or]
  · intro char last
    rw [trimChars, List.getLast?_reverse] at last
    exact not_blank_of_dropWhile _ last

theorem mem_of_mem_trim {chars : List Char} {char : Char}
    (inside : char ∈ (trim (String.ofList chars)).toList) : char ∈ chars := by
  rw [trim, String.toList_ofList, String.toList_ofList] at inside
  exact (trim_chars_sublist chars).subset inside

end TagPolicy.Text
