import Descent.Grammar.Scanner

/-!
A vocabulary at work: the tokenizer for its operators and words, and grammars for its tokens.
-/

namespace Descent

/-- A vocabulary with the grammar that finds words. -/
structure Registry (S : Scope) where
  lexicon : Lexicon
  words : Grammar S .text Unit

namespace Registry

variable {S : Scope}

/-- Words are names if there are keywords to be found among them; without keywords there are no
words, unless a grammar for them is given. -/
def ofLexicon (lexicon : Lexicon) (words : Option (Grammar S .text Unit)) : Registry S where
  lexicon
  words := words.getD (if lexicon.keywords.isEmpty then .refuse "no words" else .identifier)

/-- An operator, a keyword or a name. -/
def tokenizer (registry : Registry S) : Grammar S .text Token :=
  .terminal registry.lexicon registry.words

/-- A reserved token that one of the names stands for. -/
def token (registry : Registry S) (names : List String) : Grammar S .tokens Token :=
  let lexemes := names.filterMap registry.lexicon.resolve?
  .item (fun token => if token.reserved?.any lexemes.contains then some token else none) names

/-- Reserved tokens in order. Where not even the first is there, the whole phrase is expected. -/
def phrase (registry : Registry S) (words : List String) : Grammar S .tokens (List Token) :=
  .label (" ".intercalate words) (.sequence (words.map fun word => registry.token [word]))

end Registry

end Descent
