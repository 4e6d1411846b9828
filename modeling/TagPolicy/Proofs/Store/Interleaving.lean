import TagPolicy.Proofs.Store.Contents

/-!
Two processes on one store. Their accesses reach the store one at a time and in any order, and the
trace keeps them in the order in which they did.
-/

namespace TagPolicy

inductive Side
  | left
  | right
deriving DecidableEq

def Side.other : Side → Side
  | left => right
  | right => left

theorem Side.eq_or_eq_other (side one : Side) : one = side ∨ one = side.other := by
  cases side <;> cases one <;> simp [other]

def Side.replace {α : Type} (side : Side) (parts : Side → α) (part : α) : Side → α :=
  fun one => if one = side then part else parts one

theorem Side.replace_self {α : Type} (side : Side) (parts : Side → α) (part : α) :
    side.replace parts part side = part := if_pos rfl

theorem Side.replace_other {α : Type} {side one : Side} (different : one ≠ side)
    (parts : Side → α) (part : α) : side.replace parts part one = parts one := if_neg different

inductive Event
  | read (slot : String) (answer : Except StorageFault (Option String))
  | wrote (slot text : String)

namespace Event

def after (contents : Contents) : Event → Contents
  | read .. => contents
  | wrote slot text => contents.put slot text

def text? (slot : String) : Event → Option String
  | read .. => none
  | wrote other text => if other = slot then some text else none

def Truthful (contents : Contents) : Event → Prop
  | read slot answer => answer = contents.answer slot
  | wrote .. => True

theorem answer_after (contents : Contents) (event : Event) (slot : String) :
    (event.after contents).answer slot =
      match event.text? slot with
      | some text => .ok (some text)
      | none => contents.answer slot := by
  cases event with
  | read other answer => rfl
  | wrote other text =>
      rw [after, text?]
      by_cases same : other = slot
      · subst same
        rw [if_pos rfl, Contents.answer_put_self]
      · rw [if_neg same, Contents.answer_put_other (Ne.symm same)]

end Event

/-- The accesses of two processes in the order in which they reached a store. -/
abbrev Trace := List (Side × Event)

namespace Trace

/-- The last text written into a slot, and by whom. -/
def lastWrite (slot : String) (trace : Trace) : Option (Side × String) :=
  trace.reverse.findSome? fun entry => (entry.2.text? slot).map fun text => (entry.1, text)

theorem last_write_append (slot : String) (trace : Trace) (side : Side) (event : Event) :
    lastWrite slot (trace ++ [(side, event)]) =
      match event.text? slot with
      | some text => some (side, text)
      | none => lastWrite slot trace := by
  rw [lastWrite, List.reverse_append, List.reverse_singleton, List.singleton_append,
    List.findSome?_cons]
  cases event.text? slot <;> rfl

def Before (trace : Trace) (first second : Side × Event) : Prop := [first, second].Sublist trace

theorem before_append {trace : Trace} {first second last : Side × Event} :
    Before (trace ++ [last]) first second ↔
      Before trace first second ∨ first ∈ trace ∧ second = last := by
  constructor
  · intro before
    obtain ⟨front, back, split, inFront, inBack⟩ := List.sublist_append_iff.mp before
    cases inBack with
    | cons _ nothing =>
        rw [List.sublist_nil.mp nothing, List.append_nil] at split
        subst split
        exact Or.inl inFront
    | cons_cons _ nothing =>
        rw [List.sublist_nil.mp nothing] at split
        have parts : [first] ++ [second] = front ++ [last] := split
        obtain ⟨rfl, same⟩ := List.append_inj' parts rfl
        cases same
        exact Or.inr ⟨List.singleton_sublist.mp inFront, rfl⟩
  · rintro (before | ⟨inside, rfl⟩)
    · exact before.trans (List.sublist_append_left _ _)
    · exact (List.singleton_sublist.mpr inside).append (List.Sublist.refl _)

end Trace

namespace Access

inductive Step (contents : Contents) : Access Unit → Event → Access Unit → Prop
  | get {slot : String} {next : Except StorageFault (Option String) → Access Unit} :
      Step contents (.get slot next) (.read slot (contents.answer slot))
        (next (contents.answer slot))
  | set {slot text : String} {next : Except StorageFault Unit → Access Unit} :
      Step contents (.set slot text next) (.wrote slot text) (next (.ok ()))

theorem Step.truthful {contents : Contents} {work rest : Access Unit} {event : Event}
    (step : Step contents work event rest) : event.Truthful contents := by
  cases step with
  | get => rfl
  | set => trivial

/-- The accesses of two processes that have reached a store, what is left of the work of each, and
the contents of the store. -/
inductive Interleaved (works : Side → Access Unit) (start : Contents) :
    Trace → (Side → Access Unit) → Contents → Prop
  | start : Interleaved works start [] works start
  | next {trace : Trace} {rests : Side → Access Unit} {contents : Contents} {side : Side}
      {event : Event} {rest : Access Unit} :
      Interleaved works start trace rests contents → Step contents (rests side) event rest →
        Interleaved works start (trace ++ [(side, event)]) (side.replace rests rest)
          (event.after contents)

def finished : Access Unit → Bool
  | .done _ => true
  | _ => false

theorem eq_done_of_finished {work : Access Unit} (ended : work.finished = true) :
    work = .done () := by
  cases work with
  | done result => rfl
  | get slot next => cases ended
  | set slot text next => cases ended

/-- Two pieces of work that take their accesses in a given order. -/
def interleave (works : Side → Access Unit) (contents : Contents) :
    List Side → (Side → Access Unit) × Contents
  | [] => (works, contents)
  | side :: order =>
      let taken := (works side).advance contents
      interleave (side.replace works taken.1) taken.2 order

theorem Interleaved.interleave {works rests : Side → Access Unit} {start contents : Contents}
    {trace : Trace} (interleaved : Interleaved works start trace rests contents)
    (order : List Side) :
    ∃ later, Interleaved works start later (interleave rests contents order).1
      (Access.interleave rests contents order).2 := by
  induction order generalizing trace rests contents with
  | nil => exact ⟨trace, interleaved⟩
  | cons side order induction =>
      rw [Access.interleave]
      cases work : rests side with
      | done result =>
          have same : side.replace rests (.done result) = rests := by
            funext one
            by_cases here : one = side
            · rw [here, Side.replace_self, work]
            · exact Side.replace_other here rests _
          dsimp only [advance]
          rw [same]
          exact induction interleaved
      | get slot next =>
          have step : Step contents (rests side) (.read slot (contents.answer slot))
              (next (contents.answer slot)) := by
            rw [work]
            exact .get
          exact induction (interleaved.next step)
      | set slot text next =>
          have step : Step contents (rests side) (.wrote slot text) (next (.ok ())) := by
            rw [work]
            exact .set
          exact induction (interleaved.next step)

end Access

end TagPolicy
