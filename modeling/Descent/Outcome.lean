import Descent.State

/-!
How a parser can end. It succeeds with a value; it fails, and then alternatives may be tried or may
not; or the grammar itself is at fault, and there is nothing to go on with.
-/

namespace Descent

/-- What a failure allows. -/
inductive Severity where
  /-- Alternatives may still be tried. -/
  | recoverable
  /-- Input has been consumed for good; no alternative is tried. -/
  | committed
deriving Repr, DecidableEq

/-- A mistake in a grammar rather than in its input. -/
inductive Fault where
  /-- A repeated parser succeeded at this index without consuming anything. -/
  | emptyRepetition (index : Nat)
  /-- A reference was used that nothing is bound to. -/
  | unboundReference
  /-- A reference was bound that something is bound to. -/
  | reboundReference
  /-- References led to one another without end. -/
  | endlessRecursion
  /-- A stretch of the input was asked for that is not there. -/
  | outOfRange
deriving Repr, DecidableEq, Inhabited

/-- The words for a fault of which the author of a grammar is told. -/
def Fault.message? : Fault → Option String
  | emptyRepetition index =>
    some ("repetition over a parser that succeeded without consuming input at index " ++
      toString index ++ "; the grammar would loop forever")
  | unboundReference => some "lazy parser reference applied before a parser was bound to it"
  | reboundReference => some "lazy parser reference bound twice"
  | endlessRecursion => none
  | outOfRange => none

/-- How a parser ended. -/
inductive Outcome (a : Alphabet) (α : Type) where
  | ok (value : α) (state : State a)
  | fail (severity : Severity) (state : State a)
  | fault (fault : Fault)

namespace Outcome

variable {a : Alphabet} {α β : Type}

/-- Changes the value of a success. -/
def map (f : α → β) : Outcome a α → Outcome a β
  | ok value s => ok (f value) s
  | fail severity s => fail severity s
  | fault f => fault f

/-- Goes on from a success. -/
def bind (outcome : Outcome a α) (next : α → State a → Outcome a β) : Outcome a β :=
  match outcome with
  | ok value s => next value s
  | fail severity s => fail severity s
  | fault f => fault f

/-- Changes the state in which the parser ended. -/
def mapState (f : State a → State a) : Outcome a α → Outcome a α
  | ok value s => ok value (f s)
  | fail severity s => fail severity (f s)
  | fault f => fault f

@[simp] theorem map_ok (f : α → β) (value : α) (s : State a) :
    (ok value s).map f = ok (f value) s := rfl

@[simp] theorem map_fail (f : α → β) (severity : Severity) (s : State a) :
    (fail severity s : Outcome a α).map f = fail severity s := rfl

@[simp] theorem map_fault (f : α → β) (g : Fault) :
    (fault g : Outcome a α).map f = fault g := rfl

@[simp] theorem bind_ok (value : α) (s : State a) (next : α → State a → Outcome a β) :
    (ok value s).bind next = next value s := rfl

@[simp] theorem bind_fail (severity : Severity) (s : State a)
    (next : α → State a → Outcome a β) : (fail severity s).bind next = fail severity s := rfl

@[simp] theorem bind_fault (f : Fault) (next : α → State a → Outcome a β) :
    (fault f : Outcome a α).bind next = fault f := rfl

theorem map_self (outcome : Outcome a α) : outcome.map (fun x => x) = outcome := by
  cases outcome <;> rfl

theorem map_map {γ : Type} (f : α → β) (g : β → γ) (outcome : Outcome a α) :
    (outcome.map f).map g = outcome.map (g ∘ f) := by
  cases outcome <;> rfl

end Outcome

end Descent
