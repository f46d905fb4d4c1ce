import Descent.Outcome

/-!
Parsers as functions on states, and the ways to put them together.

A parser that fails leaves the place where it found it, so an alternative starts where the first one
did. Failures are kept in the state, where the furthest wins; `label`, `notFollowedBy` and the two
stages of a lexer and a grammar are the only ones that put some of them away.
-/

namespace Descent

/-- A parser runs from a state and ends in an outcome. -/
abbrev Parser (a : Alphabet) (α : Type) := State a → Outcome a α

namespace Parser

variable {a : Alphabet} {α β γ : Type}

/-! ## Single units -/

/-- Takes the next unit if something can be made of it. -/
def item (extract : a.Item → Option α) (names : List String) : Parser a α :=
  fun s =>
    match s.next?.bind extract with
    | some value => .ok value s.advance
    | none => .fail .recoverable (s.expect names)

/-- Succeeds where the input ends. -/
def atEnd : Parser a Unit :=
  fun s => if s.hasNext then .fail .recoverable (s.expect ["EOF"]) else .ok () s

/-- Succeeds and takes nothing. -/
def pure (value : α) : Parser a α :=
  fun s => .ok value s

/-- Fails with a message. -/
def refuse (message : String) : Parser a α :=
  fun s => .fail .recoverable (s.refuse message)

/-- Fails without a word. -/
def silent (severity : Severity) : Parser a α :=
  fun s => .fail severity s

/-- Asks a matcher about the whole text and the place in it, and goes to the end of the match. A
match that ends before the place or past the end of the text is a fault. -/
def scan (matcher : List Char → Nat → Option (Nat × α)) (name : String) : Parser .text α :=
  fun s =>
    match matcher s.input s.index with
    | some (stop, value) =>
      if s.index ≤ stop ∧ stop ≤ s.input.length then .ok value (s.moveTo stop)
      else .fault .outOfRange
    | none => .fail .recoverable (s.expect [name])

/-! ## Sequence and choice -/

/-- Goes back to where the parser started if it fails. -/
def attempt (p : Parser a α) : Parser a α :=
  fun s =>
    match p s with
    | .fail severity s' => .fail severity (s'.restore s.index)
    | outcome => outcome

/-- One parser after another. -/
def seqWith (f : α → β → γ) (p : Parser a α) (q : Parser a β) : Parser a γ :=
  attempt fun s => (p s).bind fun x s' => (q s').map (f x)

/-- Changes the value. -/
def map (f : α → β) (p : Parser a α) : Parser a β :=
  fun s => (p s).map f

/-- Tries a second parser from the same place if the first one fails and has not committed. -/
def orElse (p q : Parser a α) : Parser a α :=
  fun s =>
    match p s with
    | .fail .recoverable s' => q (s'.restore s.index)
    | outcome => outcome

/-! ## Lookahead and commitment -/

/-- A failure of the parser after it has consumed something is committed. -/
def atomic (p : Parser a α) : Parser a α :=
  fun s =>
    match p { s with mark := s.index } with
    | .fail .recoverable s' =>
      if s.index < s'.mark then .fail .committed ((s'.raiseMark s.mark).restore s.index)
      else .fail .recoverable (s'.raiseMark s.mark)
    | outcome => outcome.mapState (·.raiseMark s.mark)

/-- Looks what the parser would do and stays where it is. -/
def peek (p : Parser a α) : Parser a α :=
  fun s => (p s).mapState fun s' => { s' with index := s.index, mark := s.mark }

/-- Succeeds where the parser does not, and takes nothing. What the parser records is forgotten. -/
def notFollowedBy (p : Parser a α) (name : String) : Parser a Unit :=
  fun s =>
    let back (s' : State a) : State a :=
      { s' with index := s.index, mark := s.mark, failure := s.failure }
    match p s.dropFailure with
    | .ok _ s' => .fail .recoverable ((back s').refuse ("unexpected " ++ name))
    | .fail _ s' => .ok () (back s')
    | .fault f => .fault f

/-! ## Repetition -/

/-- Runs a parser until it fails, at most so many times. One that succeeds without moving would go
on for ever. -/
def iterate (p : Parser a α) : Nat → Parser a (List α)
  | 0 => fun _ => .fault .endlessRecursion
  | n + 1 => fun s =>
    match p s with
    | .ok x s' =>
      if s'.index = s.index then .fault (.emptyRepetition s.index)
      else (iterate p n s').map (x :: ·)
    | .fail .recoverable s' => .ok [] (s'.restore s.index)
    | .fail .committed s' => .fail .committed s'
    | .fault f => .fault f

/-- Runs a parser as often as it succeeds. Each time it takes a unit, so the units that are left
bound how often that is. -/
def many (p : Parser a α) : Parser a (List α) :=
  attempt fun s => iterate p (s.input.length - s.index + 1) s

/-! ## Names -/

/-- Gives a parser a name. If it fails without getting past its place, the name is what was
expected; a failure further on stays as it is. -/
def label (name : String) (p : Parser a α) : Parser a α :=
  fun s =>
    match p (s.dropFailure.note (.enter name)) with
    | .ok x s' => .ok x ((s'.note .leave).absorb s.failure)
    | .fail severity s' =>
      let left := s'.note .leave
      let named :=
        if left.failedBeyond s.index then left
        else (left.dropFailure.restore s.index).expect [name]
      .fail severity (named.absorb s.failure)
    | .fault f => .fault f

/-- Lets those who watch know of a parser and of its value. -/
def traced (name : String) (render : α → String) (p : Parser a α) : Parser a α :=
  fun s =>
    match p (s.note (.enter name)) with
    | .ok x s' => .ok x ((s'.note (.result (render x))).note .leave)
    | outcome => outcome.mapState (·.note .leave)

/-! ## Matched text -/

/-- Tells the value together with the stretch of text that was matched. -/
def spanned (f : α → Nat → Nat → List Char → β) (p : Parser .text α) : Parser .text β :=
  fun s =>
    (p s).bind fun x s' =>
      match s'.slice? s.index s'.index with
      | some text => .ok (f x s.index s'.index text) s'
      | none => .fault .outOfRange

end Parser

end Descent
