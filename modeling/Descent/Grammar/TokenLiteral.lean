import Descent.Grammar.Combinator

/-!
Grammars of tokens that take one token of a kind and give what it holds.
-/

namespace Descent.Grammar

variable {S : Scope} {α : Type}

/-- A token of whose kind something can be made. -/
def tokenOf (extract : TokenKind → Option α) (name : String) : Grammar S .tokens α :=
  item (fun token => extract token.kind) [name]

/-- The name of an identifier. -/
def identifierToken : Grammar S .tokens String :=
  tokenOf (fun | .identifier name => some name | _ => none) "identifier"

/-- The text of an integer without a value. -/
def integerToken : Grammar S .tokens String :=
  tokenOf (fun | .integer text => some text | _ => none) "integer"

/-- The text of a decimal number. -/
def decimalToken : Grammar S .tokens String :=
  tokenOf (fun | .decimal text => some text | _ => none) "decimal number"

/-- The two parts of a number with an exponent. -/
def scientificToken : Grammar S .tokens (String × String) :=
  tokenOf (fun
    | .scientific significand exponent => some (significand, exponent)
    | _ => none) "scientific notation"

/-- The value of an integer. -/
def longToken : Grammar S .tokens Int64 :=
  tokenOf (fun | .long value => some value | _ => none) "integer"

/-- The character of a character literal. -/
def charToken : Grammar S .tokens Char :=
  tokenOf (fun | .char value => some value | _ => none) "character literal"

/-- The content of a string literal. -/
def stringToken : Grammar S .tokens String :=
  tokenOf (fun | .string content => some content | _ => none) "string literal"

/-- The text of a token whose kind has one of the given names. -/
def fragment (tags : List String) : Grammar S .tokens String :=
  item (fun token => if tags.contains token.kind.tag then some token.text else none) tags

end Descent.Grammar
