import Descent.Grammar.Combinator
import Descent.Pattern.Comment
import Descent.Pattern.Number
import Descent.Pattern.Quoted
import Descent.Pattern.Word

/-!
Grammars of characters: single characters, patterns under a name, comments and quoted text. Most
have no value of their own; `source` gives the text they matched.
-/

namespace Descent.Grammar

variable {S : Scope} {α : Type}

/-- A pattern under the name by which its failure is reported. -/
def pattern (p : Pattern) (name : String) : Grammar S .text Unit :=
  scan (fun text start => (p.endAt text start).map (·, ())) name

/-- The text that a grammar matched. -/
def source (p : Grammar S .text α) : Grammar S .text String :=
  spanned (fun _ _ _ text => String.ofList text) p

/-! ## Characters and fixed texts -/

/-- The given character. -/
def char (c : Char) : Grammar S .text Char :=
  satisfy (· == c) c.toString

/-- A character of white space. -/
def blank : Grammar S .text Char :=
  satisfy Text.isBlank "whitespace"

/-- The given text. -/
def string (text : String) : Grammar S .text Unit :=
  pattern (Pattern.literal text.toList) text

/-- The given text in either case. -/
def stringIgnoringCase (text : String) : Grammar S .text Unit :=
  pattern (Pattern.literalIgnoringCase text.toList) text

/-! ## Words and numbers -/

/-- A run of white space. -/
def blanks : Grammar S .text Unit :=
  pattern Pattern.blanks "whitespaces"

/-- A name of ASCII letters, digits and underscores. -/
def identifier : Grammar S .text Unit :=
  pattern Pattern.identifier "identifier"

/-- A run of digits. -/
def integer : Grammar S .text Unit :=
  pattern Pattern.integer "integer"

/-- Digits with or without a fraction. -/
def decimal : Grammar S .text Unit :=
  pattern Pattern.decimal "decimal number"

/-- A decimal number with an exponent. -/
def scientific : Grammar S .text Unit :=
  pattern Pattern.scientific "scientific notation"

/-- A hexadecimal numeral with its mark. -/
def hexInteger : Grammar S .text Unit :=
  pattern Pattern.hexInteger "hex integer"

/-- A numeral that starts with a zero. -/
def octalInteger : Grammar S .text Unit :=
  pattern Pattern.octalInteger "octal integer"

/-- A numeral that starts with another digit. -/
def decimalInteger : Grammar S .text Unit :=
  pattern Pattern.decimalInteger "decimal integer"

/-! ## Comments -/

/-- A comment that ends with its line. -/
def lineComment (mark : String) : Grammar S .text Unit :=
  pattern (Pattern.lineComment mark.toList) "line comment"

/-- A comment between two marks. -/
def blockComment (opening closing : String) : Grammar S .text Unit :=
  pattern (Pattern.blockComment opening.toList closing.toList) "block comment"

/-- White space, comments after `//` and comments between `/*` and `*/`, one or more of them. -/
def blanksAndComments : Grammar S .text Unit :=
  skipOneOrMore (choice [blanks, lineComment "//", blockComment "/*" "*/"])

/-! ## Quoted text -/

/-- A quoted text of one character. -/
def charLiteral (quote : Char) : Grammar S .text Char :=
  scan (fun text start =>
    match Pattern.quotedEndAt quote text start with
    | some (stop, [c]) => some (stop, c)
    | _ => none) "character literal"

/-- A quoted text. -/
def stringLiteral (quote : Char) : Grammar S .text String :=
  scan (fun text start =>
    (Pattern.quotedEndAt quote text start).map fun (stop, content) =>
      (stop, String.ofList content)) "string literal"

end Descent.Grammar
