import Descent.Alphabet
import Descent.Failure
import Descent.Trace.Event

/-!
The state of a run: the input and the place in it, how far it has been consumed, the furthest
failure so far and the events for those who watch.

The place can be set back, the mark of consumption cannot except by lookahead, and failures and
events outlive both.
-/

namespace Descent

/-- The state of a run over an alphabet. -/
structure State (a : Alphabet) where
  input : List a.Item
  /-- The index of the next unit. -/
  index : Nat := 0
  /-- The furthest index up to which input has been consumed. -/
  mark : Nat := 0
  /-- The furthest failure so far. -/
  failure : Option Failure := none
  /-- What happened to named parsers, latest first. -/
  events : List Trace.Event := []

namespace State

variable {a : Alphabet}

/-! ## The place -/

/-- The next unit, if there is one. -/
def next? (s : State a) : Option a.Item :=
  s.input[s.index]?

/-- Is there a next unit? -/
def hasNext (s : State a) : Bool :=
  s.index < s.input.length

/-- Goes to an index and counts what lies before it as consumed. -/
def moveTo (s : State a) (index : Nat) : State a :=
  { s with index, mark := max s.mark index }

/-- Consumes the next unit; at the end nothing happens. -/
def advance (s : State a) : State a :=
  if s.hasNext then { s with index := s.index + 1, mark := max s.mark (s.index + 1) } else s

/-- Goes back to an index without giving up what has been consumed. -/
def restore (s : State a) (index : Nat) : State a :=
  { s with index }

/-- Consumption reaches at least an index. -/
def raiseMark (s : State a) (index : Nat) : State a :=
  { s with mark := max s.mark index }

/-- The units from one index to another, if that is a stretch of the input. -/
def slice? (s : State a) (start stop : Nat) : Option (List a.Item) :=
  if start ≤ stop ∧ stop ≤ s.input.length then some ((s.input.drop start).take (stop - start))
  else none

/-! ## Failures -/

/-- What stands at the place. -/
def encountered (s : State a) : Encountered :=
  match s.next? with
  | some unit => .unit (a.describe unit)
  | none => .endOfInput

/-- Keeps a failure if it is the furthest. -/
def record (s : State a) (failure : Failure) : State a :=
  { s with failure := some (Failure.record s.failure failure) }

/-- Puts a failure kept earlier before what was recorded since. -/
def absorb (s : State a) (earlier : Option Failure) : State a :=
  { s with failure := Failure.furthest earlier s.failure }

/-- Forgets the failure. -/
def dropFailure (s : State a) : State a :=
  { s with failure := none }

/-- Any of the names would have been accepted here. -/
def expect (s : State a) (names : List String) : State a :=
  s.record ⟨s.index, addNames [] names, none, s.encountered⟩

/-- There is no going on here, for a reason given in words. -/
def refuse (s : State a) (message : String) : State a :=
  s.record ⟨s.index, [], some message, s.encountered⟩

/-- Has something failed beyond an index? -/
def failedBeyond (s : State a) (index : Nat) : Bool :=
  match s.failure with
  | some failure => index < failure.position
  | none => false

/-! ## Events -/

/-- Something happens to a named parser. -/
def note (s : State a) (event : Trace.Event) : State a :=
  { s with events := event :: s.events }

/-- All events, earliest first. -/
def journal (s : State a) : List Trace.Event :=
  s.events.reverse

/-! ## What the operations leave alone -/

@[simp] theorem input_moveTo (s : State a) (index : Nat) : (s.moveTo index).input = s.input := rfl

@[simp] theorem input_restore (s : State a) (index : Nat) : (s.restore index).input = s.input := rfl

@[simp] theorem index_restore (s : State a) (index : Nat) : (s.restore index).index = index := rfl

@[simp] theorem input_advance (s : State a) : s.advance.input = s.input := by
  unfold advance; split <;> rfl

@[simp] theorem events_advance (s : State a) : s.advance.events = s.events := by
  unfold advance; split <;> rfl

@[simp] theorem failure_advance (s : State a) : s.advance.failure = s.failure := by
  unfold advance; split <;> rfl

@[simp] theorem input_expect (s : State a) (names : List String) :
    (s.expect names).input = s.input := rfl

@[simp] theorem index_expect (s : State a) (names : List String) :
    (s.expect names).index = s.index := rfl

@[simp] theorem mark_expect (s : State a) (names : List String) :
    (s.expect names).mark = s.mark := rfl

theorem hasNext_iff (s : State a) : s.hasNext = true ↔ s.index < s.input.length := by
  simp [hasNext]

/-- What stands at a place is a matter of the input and the index. -/
theorem encountered_congr {s t : State a} (hinput : t.input = s.input) (hindex : t.index = s.index) :
    t.encountered = s.encountered := by
  simp only [encountered, next?, hinput, hindex]

@[simp] theorem index_moveTo (s : State a) (index : Nat) : (s.moveTo index).index = index := rfl

end State

end Descent
