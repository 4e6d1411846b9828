/-!
Blank characters and trimming. A character is blank when it has the Unicode property White_Space;
this is what separates tokens of the rule language and what is trimmed from names, versions and
stored texts.
-/

namespace TagPolicy.Text

def isBlank (char : Char) : Bool :=
  let code := char.toNat
  (0x09 ≤ code && code ≤ 0x0D) || code == 0x20 || code == 0x85 || code == 0xA0 || code == 0x1680 ||
    (0x2000 ≤ code && code ≤ 0x200A) || code == 0x2028 || code == 0x2029 || code == 0x202F ||
    code == 0x205F || code == 0x3000

def trimChars (chars : List Char) : List Char :=
  ((chars.dropWhile isBlank).reverse.dropWhile isBlank).reverse

def trim (text : String) : String := String.ofList (trimChars text.toList)

def isBlankText (text : String) : Bool := text.toList.all isBlank

theorem trim_chars_eq_self {chars : List Char}
    (first : ∀ char, chars.head? = some char → isBlank char = false)
    (last : ∀ char, chars.getLast? = some char → isBlank char = false) :
    trimChars chars = chars := by
  have start : ∀ {list : List Char}, (∀ char, list.head? = some char → isBlank char = false) →
      list.dropWhile isBlank = list := by
    intro list unblank
    cases list with
    | nil => rfl
    | cons char rest => simp [unblank char rfl]
  unfold trimChars
  rw [start first, start (by simpa [List.head?_reverse] using last), List.reverse_reverse]

theorem trim_chars_sublist (chars : List Char) : (trimChars chars).Sublist chars := by
  have front := List.dropWhile_sublist (l := chars) isBlank
  have back := List.dropWhile_sublist (l := (chars.dropWhile isBlank).reverse) isBlank
  have kept := back.reverse
  rw [List.reverse_reverse] at kept
  exact kept.trans front

end TagPolicy.Text
