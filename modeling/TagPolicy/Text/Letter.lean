/-!
Comparison of words without regard to the case of ASCII letters, and the reduction of free text to
a plain identifier, as it is used in the names of automatic tags.
-/

namespace TagPolicy.Text

/-- The lower-case form of an ASCII letter; other characters stay. -/
def lowerAscii (char : Char) : Char :=
  if 'A' ≤ char ∧ char ≤ 'Z' then Char.ofNat (char.toNat + 32) else char

def lowerWord (word : String) : String := String.ofList (word.toList.map lowerAscii)

def sameWord (left right : String) : Bool := lowerWord left == lowerWord right

/-- The characters of a plain identifier: lower-case ASCII letters, digits and the underscore. -/
def isPlain (char : Char) : Bool :=
  ('a' ≤ char && char ≤ 'z') || ('0' ≤ char && char ≤ '9') || char == '_'

/-- What one character becomes in a plain identifier. The lower-case form is taken first; whatever
is then not plain becomes an underscore. Two characters outside ASCII have a lower-case form that
starts with a plain letter: the Kelvin sign and the capital I with a dot, which has two characters
in lower case. -/
def plainForm (char : Char) : List Char :=
  if char = '\u212a' then ['k']
  else if char = '\u0130' then ['i', '_']
  else
    let lower := lowerAscii char
    if isPlain lower then [lower] else ['_']

def normalize (text : String) : String := String.ofList (text.toList.flatMap plainForm)

/-- Nothing but plain characters is left. -/
theorem is_plain_of_mem_normalize {text : String} {char : Char}
    (member : char ∈ (normalize text).toList) : isPlain char = true := by
  simp only [normalize, String.toList_ofList, List.mem_flatMap] at member
  obtain ⟨source, -, inForm⟩ := member
  unfold plainForm at inForm
  split at inForm
  · simp at inForm
    subst inForm
    rfl
  · split at inForm
    · simp at inForm
      rcases inForm with rfl | rfl <;> rfl
    · dsimp only at inForm
      split at inForm
      · simp at inForm
        subst inForm
        assumption
      · simp at inForm
        subst inForm
        rfl

theorem normalize_eq_self {text : String} (plain : ∀ char ∈ text.toList, isPlain char = true) :
    normalize text = text := by
  have single : ∀ char, isPlain char = true → plainForm char = [char] := by
    intro char plain
    have notUpper : ¬ ('A' ≤ char ∧ char ≤ 'Z') := by
      intro upper
      simp only [isPlain, Bool.or_eq_true, Bool.and_eq_true, decide_eq_true_eq, beq_iff_eq] at plain
      simp only [Char.le_def, UInt32.le_iff_toNat_le] at upper plain
      rcases plain with (plain | plain) | rfl
      · exact absurd (Nat.le_trans plain.1 upper.2) (by decide)
      · exact absurd (Nat.le_trans upper.1 plain.2) (by decide)
      · exact absurd upper.2 (by decide)
    have notKelvin : char ≠ '\u212a' := by rintro rfl; exact absurd plain (by decide)
    have notDotted : char ≠ '\u0130' := by rintro rfl; exact absurd plain (by decide)
    simp [plainForm, notKelvin, notDotted, lowerAscii, notUpper, plain]
  have flat : ∀ list : List Char, (∀ char ∈ list, isPlain char = true) →
      list.flatMap plainForm = list := by
    intro list plain
    induction list with
    | nil => rfl
    | cons char rest induction =>
        rw [List.flatMap_cons, single char (plain char (by simp)),
          induction fun other member => plain other (List.mem_cons_of_mem _ member)]
        rfl
  rw [normalize, flat text.toList plain, String.ofList_toList]

end TagPolicy.Text
