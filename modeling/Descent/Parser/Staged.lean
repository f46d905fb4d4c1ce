import Descent.Parser.Basic

/-!
Parsing in two stages: a lexer makes tokens of a text, a grammar reads the tokens, and what fails
among the tokens is reported where the tokens stand in the text.
-/

namespace Descent

/-- Moves a failure among tokens to the text they were made of: to the start of the token it is at,
or, past the last one, to where the lexer stopped. -/
def Failure.toSource (failure : Failure) (tokens : List Token) (text : List Char)
    (stopped : Nat) : Failure :=
  match tokens[failure.position]? with
  | some token => failure.relocate token.start (.unit token.text)
  | none =>
    match text[stopped]? with
    | some c => failure.relocate stopped (.unit c.toString)
    | none => failure.relocate stopped .endOfInput

namespace Parser

variable {α : Type}

/-- Reads a stretch of text as tokens and all of the tokens by a grammar. Why lexing stopped is
nobody's failure and is forgotten; a failure of the grammar is moved to the text. -/
def staged (grammar : Parser .tokens α) (lexer : Parser .text (List Token)) : Parser .text α :=
  fun s =>
    match lexer s.dropFailure with
    | .fault f => .fault f
    | .fail severity s' => .fail severity { s' with failure := s.failure }
    | .ok tokens s' =>
      let back (nested : State .tokens) : State .text :=
        let since := nested.failure.map (·.toSource tokens s'.input s'.index)
        { s' with failure := Failure.furthest s.failure since, events := nested.events }
      match grammar { input := tokens, events := s'.events } with
      | .ok x nested => .ok x (back nested)
      | .fail severity nested => .fail severity ((back nested).restore s.index)
      | .fault f => .fault f

end Parser

end Descent
