import Descent.Text.Quoted

/-!
Tokens: pieces of a text with their kind and their place.
-/

namespace Descent

/-- What a token is, and what it holds beyond its text. -/
inductive TokenKind where
  /-- A keyword or an operator, in its registered spelling. -/
  | reserved (lexeme : String)
  | identifier (name : String)
  | integer (text : String)
  | decimal (text : String)
  | scientific (significand exponent : String)
  /-- An integer with its value. -/
  | long (value : Int64)
  | char (value : Char)
  | string (content : String)
deriving Repr, DecidableEq

namespace TokenKind

/-- The name of a kind. -/
def tag : TokenKind → String
  | reserved _ => "reserved"
  | identifier _ => "identifier"
  | integer _ => "integer"
  | decimal _ => "decimal"
  | scientific _ _ => "scientific"
  | long _ => "long"
  | char _ => "char"
  | string _ => "string"

/-- The kind with what it holds, for people who look for mistakes. -/
def debug : TokenKind → String
  | reserved lexeme => "Reserved(" ++ Text.quoteText lexeme ++ ")"
  | identifier name => "Identifier(" ++ Text.quoteText name ++ ")"
  | integer text => "Integer(" ++ Text.quoteText text ++ ")"
  | decimal text => "Decimal(" ++ Text.quoteText text ++ ")"
  | scientific significand exponent =>
    "Scientific \x7b significand: " ++ Text.quoteText significand ++
      ", exponent: " ++ Text.quoteText exponent ++ " \x7d"
  | long value => "Long(" ++ toString value.toInt ++ ")"
  | char value => "Char(" ++ Text.quoteChar value ++ ")"
  | string content => "Str(" ++ Text.quoteText content ++ ")"

end TokenKind

/-- A piece of a text from index `start` up to, but without, index `stop`. -/
structure Token where
  start : Nat
  stop : Nat
  kind : TokenKind
  /-- The piece itself. -/
  text : String
deriving Repr, DecidableEq

namespace Token

/-- How many characters the token covers. -/
def length (token : Token) : Nat :=
  token.stop - token.start

/-- Does the token cover nothing? -/
def isEmpty (token : Token) : Bool :=
  token.start == token.stop

/-- The registered spelling, of a keyword or an operator. -/
def reserved? (token : Token) : Option String :=
  match token.kind with
  | .reserved lexeme => some lexeme
  | _ => none

/-- The token with all it holds, for people who look for mistakes. -/
def debug (token : Token) : String :=
  "Token \x7b start: " ++ toString token.start ++ ", end: " ++ toString token.stop ++
    ", kind: " ++ token.kind.debug ++ ", text: " ++ Text.quoteText token.text ++ " \x7d"

end Token

end Descent
