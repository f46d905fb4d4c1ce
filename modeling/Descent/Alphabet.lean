import Descent.Token

/-!
The things a grammar can be about: the characters of a text, the tokens made of them, or words.
-/

namespace Descent

/-- What the input of a grammar consists of. -/
inductive Alphabet where
  | text
  | tokens
  | words
deriving Repr, DecidableEq

namespace Alphabet

/-- One unit of input. -/
abbrev Item : Alphabet → Type
  | text => Char
  | tokens => Token
  | words => String

/-- A unit as it is named in a failure. -/
def describe : (alphabet : Alphabet) → alphabet.Item → String
  | text, c => c.toString
  | tokens, token => token.text
  | words, word => word

end Alphabet

end Descent
