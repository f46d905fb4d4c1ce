import Descent.Grammar.Scanner

/-!
From text to tokens: grammars for single tokens, the lexer that finds all of them, and grammars of
tokens used as grammars of text.
-/

namespace Descent.Grammar

variable {S : Scope} {α : Type}

/-- A grammar of text as a token: its kind comes from the value and the matched text. -/
def tokenize (kind : α → List Char → TokenKind) (p : Grammar S .text α) :
    Grammar S .text Token :=
  spanned (fun x start stop text => ⟨start, stop, kind x text, String.ofList text⟩) p

/-! ## Literals -/

/-- A name as a token. -/
def identifierTokenizer : Grammar S .text Token :=
  tokenize (fun _ text => .identifier (String.ofList text)) identifier

/-- A run of digits as a token that keeps its text. -/
def integerTokenizer : Grammar S .text Token :=
  tokenize (fun _ text => .integer (String.ofList text)) integer

/-- A decimal number as a token that keeps its text. -/
def decimalTokenizer : Grammar S .text Token :=
  tokenize (fun _ text => .decimal (String.ofList text)) decimal

/-- A number with an exponent as a token that holds both parts. -/
def scientificTokenizer : Grammar S .text Token :=
  tokenize (fun _ text =>
    let (significand, exponent) := Numeral.splitScientific text
    .scientific (String.ofList significand) (String.ofList exponent)) scientific

/-- A hexadecimal numeral with its value. -/
def hexTokenizer : Grammar S .text Token :=
  tokenize (fun _ text => .long (Numeral.hexValue text)) hexInteger

/-- An octal numeral with its value. -/
def octalTokenizer : Grammar S .text Token :=
  tokenize (fun _ text => .long (Numeral.octalValue text)) octalInteger

/-- A decimal numeral with its value. -/
def decimalIntegerTokenizer : Grammar S .text Token :=
  tokenize (fun _ text => .long (Numeral.decimalValue text)) decimalInteger

/-- An integer with its value: hexadecimal after `0x`, octal after any other leading zero, decimal
otherwise. -/
def longTokenizer : Grammar S .text Token :=
  label "integer" (orElse (orElse hexTokenizer octalTokenizer) decimalIntegerTokenizer)

/-- A quoted character. -/
def charLiteralTokenizer (quote : Char) : Grammar S .text Token :=
  tokenize (fun c _ => .char c) (charLiteral quote)

/-- A quoted text. -/
def stringLiteralTokenizer (quote : Char) : Grammar S .text Token :=
  tokenize (fun content _ => .string content) (stringLiteral quote)

/-! ## All tokens of a text -/

/-- Tokens with or without a delimiter before, between and after them. -/
def lexer (tokenizer : Grammar S .text Token) (delimiter : Grammar S .text Unit) :
    Grammar S .text (List Token) :=
  skipThen (optional delimiter) (many (thenSkip tokenizer (optional delimiter)))

/-- A grammar of tokens as a grammar of text: the lexer finds as many tokens as it can, and the
grammar has to take all of them. -/
def overTokens (grammar : Grammar S .tokens α) (tokenizer : Grammar S .text Token)
    (delimiter : Grammar S .text Unit) : Grammar S .text α :=
  staged (whole grammar) (lexer tokenizer delimiter)

end Descent.Grammar
