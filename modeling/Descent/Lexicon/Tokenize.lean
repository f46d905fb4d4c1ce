import Descent.Lexicon.Basic
import Descent.Parser.Basic

/-!
Cutting the next reserved word, operator or identifier off a text. The longest operator competes with
what a scanner of words takes; the longer wins, and on a tie the operator.
-/

namespace Descent

namespace Lexicon

/-- The longest operator at the front of a text; of several, the first registered. -/
def longestOperator? : List String → List Char → Option String
  | [], _ => none
  | operator :: rest, text =>
    let best := longestOperator? rest text
    if operator.toList.isPrefixOf text then
      match best with
      | some other => if operator.length < other.length then some other else some operator
      | none => some operator
    else best

/-- What a word is: the keyword spelled like it, or a name. -/
def wordKind (lexicon : Lexicon) (word : String) : TokenKind :=
  match lexicon.keyword? word with
  | some keyword => .reserved keyword
  | none => .identifier word

end Lexicon

namespace Parser

/-- Where a scanner of words stops. The scan is only a look: the place, the mark and the failure are
as before. -/
def scanWord (words : Parser .text Unit) (s : State .text) :
    Except Fault (Option Nat × State .text) :=
  let back (s' : State .text) : State .text :=
    { s' with index := s.index, mark := s.mark, failure := s.failure }
  match words s.dropFailure with
  | .ok _ s' => .ok (if s.index < s'.index then some s'.index else none, back s')
  | .fail _ s' => .ok (none, back s')
  | .fault f => .error f

/-- Takes the characters up to an index as a token. -/
def cut (stop : Nat) (kind : String → TokenKind) : Parser .text Token :=
  fun s =>
    match s.slice? s.index stop with
    | some chars =>
      let text := String.ofList chars
      .ok ⟨s.index, stop, kind text, text⟩ (s.moveTo stop)
    | none => .fault .outOfRange

/-- Takes the operator or word at the place. -/
def terminal (lexicon : Lexicon) (words : Parser .text Unit) : Parser .text Token :=
  fun s =>
    if s.input.length < s.index ∧ lexicon.operators ≠ [] then .fault .outOfRange
    else
      match scanWord words s with
      | .error f => .fault f
      | .ok (wordStop, s) =>
        match Lexicon.longestOperator? lexicon.operators (s.input.drop s.index), wordStop with
        | some operator, some stop =>
          if s.index + operator.length < stop then cut stop lexicon.wordKind s
          else cut (s.index + operator.length) (fun _ => .reserved operator) s
        | some operator, none => cut (s.index + operator.length) (fun _ => .reserved operator) s
        | none, some stop => cut stop lexicon.wordKind s
        | none, none => .fail .recoverable (s.expect lexicon.operators)

end Parser

end Descent
