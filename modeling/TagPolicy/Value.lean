import TagPolicy.Text.Numeral
import TagPolicy.Text.Quoted

/-!
Scalar values: what a target's attributes hold and what rules compare them with. Values of different
types are never equal, and they are ordered by type first: texts, then integers, then booleans.
-/

namespace TagPolicy

inductive Value
  | text (content : String)
  | integer (number : Int64)
  | boolean (flag : Bool)
deriving DecidableEq, Repr, Inhabited

namespace Value

/-- The value that an untyped text stands for: an integer or a boolean if it is written as one, and
the text itself otherwise. -/
def infer (raw : String) : Value :=
  match Text.int64? raw with
  | some number => .integer number
  | none =>
      if raw = "true" then .boolean true
      else if raw = "false" then .boolean false
      else .text raw

def render : Value → String
  | text content => Text.quoted content
  | integer number => toString number.toInt
  | boolean true => "true"
  | boolean false => "false"

def before : Value → Value → Bool
  | text left, text right => left < right
  | text _, _ => true
  | integer left, integer right => left < right
  | integer _, boolean _ => true
  | boolean left, boolean right => !left && right
  | _, _ => false

instance : LT Value := ⟨fun left right => before left right = true⟩

instance : LE Value := ⟨fun left right => ¬ right < left⟩

instance : DecidableLT Value := fun left right =>
  inferInstanceAs (Decidable (before left right = true))

theorem before_irrefl (value : Value) : before value value = false := by
  cases value <;> simp [before, Std.lt_irrefl]

theorem before_trans {first second third : Value} (left : before first second = true)
    (right : before second third = true) : before first third = true := by
  cases first <;> cases second <;> cases third <;>
    simp only [before, decide_eq_true_eq, Bool.and_eq_true, reduceCtorEq] at left right ⊢
  · exact Std.lt_trans left right
  · exact Std.lt_trans left right
  · exact ⟨left.1, right.2⟩

theorem eq_of_not_before {first second : Value} (left : before first second = false)
    (right : before second first = false) : first = second := by
  cases first <;> cases second <;>
    simp only [before, decide_eq_false_iff_not, reduceCtorEq] at left right
  · rw [Std.le_antisymm (Std.not_lt.mp right) (Std.not_lt.mp left)]
  · rw [Std.le_antisymm (Std.not_lt.mp right) (Std.not_lt.mp left)]
  · rename_i first second
    cases first <;> cases second <;> simp at left right ⊢

theorem before_asymm {first second : Value} (left : before first second = true) :
    before second first = false := by
  cases right : before second first
  · rfl
  · exact absurd (before_trans left right) (by simp [before_irrefl])

theorem le_iff {first second : Value} : first ≤ second ↔ before second first = false := by
  show ¬ before second first = true ↔ _
  simp

instance : Std.IsLinearOrder Value where
  le_refl value := le_iff.mpr (before_irrefl value)
  le_trans first second third left right := by
    rw [le_iff] at left right ⊢
    cases after : before third first
    · rfl
    · cases between : before second third
      · rw [← eq_of_not_before right between, after] at left
        cases left
      · rw [before_trans between after] at left
        cases left
  le_antisymm first second left right := eq_of_not_before (le_iff.mp right) (le_iff.mp left)
  le_total first second := by
    rw [le_iff, le_iff]
    cases after : before second first
    · exact Or.inl rfl
    · exact Or.inr (before_asymm after)

instance : Std.LawfulOrderLT Value where
  lt_iff first second := by
    rw [le_iff, le_iff]
    show before first second = true ↔ _
    constructor
    · intro less
      exact ⟨before_asymm less, by simp [less]⟩
    · rintro ⟨-, less⟩
      simpa using less

end Value

end TagPolicy
