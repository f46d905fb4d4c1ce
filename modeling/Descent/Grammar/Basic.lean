import Descent.Lexicon.Tokenize
import Descent.Parser.Staged

/-!
Grammars as data. A `Grammar` is a term that says how a parser is put together, and `Grammar.run`
gives the parser; so grammars can be taken apart, compared and changed as well as run.

References stand for grammars that are bound to them elsewhere, which is how grammars become
recursive. What there is to refer to is the `Scope` of a grammar; what a reference means while
running is up to a `Resolver`.
-/

namespace Descent

/-- The references that a grammar may use: over which alphabet each is, and which values it has. -/
structure Scope where
  Ref : Type
  decideEq : DecidableEq Ref
  alphabet : Ref → Alphabet
  Value : Ref → Type

/-- A grammar over an alphabet whose values have the given type. -/
inductive Grammar (S : Scope) : Alphabet → Type → Type 1 where
  /-- The next unit, if something can be made of it. -/
  | item {a : Alphabet} {α : Type} (extract : a.Item → Option α) (names : List String) :
      Grammar S a α
  /-- The end of the input. -/
  | atEnd {a : Alphabet} : Grammar S a Unit
  /-- A value, without looking at the input. -/
  | pure {a : Alphabet} {α : Type} (value : α) : Grammar S a α
  /-- A failure with a message. -/
  | refuse {a : Alphabet} {α : Type} (message : String) : Grammar S a α
  /-- A failure without a word. -/
  | silent {a : Alphabet} {α : Type} (severity : Severity) : Grammar S a α
  /-- Whatever a matcher makes of the text and the place in it. -/
  | scan {α : Type} (matcher : List Char → Nat → Option (Nat × α)) (name : String) :
      Grammar S .text α
  /-- A changed value. -/
  | map {a : Alphabet} {α β : Type} (f : α → β) (p : Grammar S a α) : Grammar S a β
  /-- One grammar after another. -/
  | seqWith {a : Alphabet} {α β γ : Type} (f : α → β → γ) (p : Grammar S a α)
      (q : Grammar S a β) : Grammar S a γ
  /-- The second grammar where the first one fails. -/
  | orElse {a : Alphabet} {α : Type} (p q : Grammar S a α) : Grammar S a α
  /-- No alternatives once something has been consumed. -/
  | atomic {a : Alphabet} {α : Type} (p : Grammar S a α) : Grammar S a α
  /-- Lookahead. -/
  | peek {a : Alphabet} {α : Type} (p : Grammar S a α) : Grammar S a α
  /-- Lookahead for what must not follow. -/
  | notFollowedBy {a : Alphabet} {α : Type} (p : Grammar S a α) (name : String) :
      Grammar S a Unit
  /-- As many as there are. -/
  | many {a : Alphabet} {α : Type} (p : Grammar S a α) : Grammar S a (List α)
  /-- A name for what is expected. -/
  | label {a : Alphabet} {α : Type} (name : String) (p : Grammar S a α) : Grammar S a α
  /-- A name for those who watch. -/
  | traced {a : Alphabet} {α : Type} (name : String) (render : α → String)
      (p : Grammar S a α) : Grammar S a α
  /-- The value together with the matched stretch of text. -/
  | spanned {α β : Type} (f : α → Nat → Nat → List Char → β) (p : Grammar S .text α) :
      Grammar S .text β
  /-- The grammar bound to a reference. -/
  | ref (x : S.Ref) : Grammar S (S.alphabet x) (S.Value x)
  /-- A grammar of tokens over the tokens a lexer finds. -/
  | staged {α : Type} (grammar : Grammar S .tokens α) (lexer : Grammar S .text (List Token)) :
      Grammar S .text α
  /-- An operator or a word of a vocabulary. -/
  | terminal (lexicon : Lexicon) (words : Grammar S .text Unit) : Grammar S .text Token

/-- What references mean while a grammar runs. -/
abbrev Resolver (S : Scope) := (x : S.Ref) → Parser (S.alphabet x) (S.Value x)

namespace Grammar

variable {S : Scope}

/-- The parser of a grammar. -/
def run (resolve : Resolver S) : {a : Alphabet} → {α : Type} → Grammar S a α → Parser a α
  | _, _, item extract names => Parser.item extract names
  | _, _, atEnd => Parser.atEnd
  | _, _, pure value => Parser.pure value
  | _, _, refuse message => Parser.refuse message
  | _, _, silent severity => Parser.silent severity
  | _, _, scan matcher name => Parser.scan matcher name
  | _, _, map f p => Parser.map f (run resolve p)
  | _, _, seqWith f p q => Parser.seqWith f (run resolve p) (run resolve q)
  | _, _, orElse p q => Parser.orElse (run resolve p) (run resolve q)
  | _, _, atomic p => Parser.atomic (run resolve p)
  | _, _, peek p => Parser.peek (run resolve p)
  | _, _, notFollowedBy p name => Parser.notFollowedBy (run resolve p) name
  | _, _, many p => Parser.many (run resolve p)
  | _, _, label name p => Parser.label name (run resolve p)
  | _, _, traced name render p => Parser.traced name render (run resolve p)
  | _, _, spanned f p => Parser.spanned f (run resolve p)
  | _, _, ref x => resolve x
  | _, _, staged grammar lexer => Parser.staged (run resolve grammar) (run resolve lexer)
  | _, _, terminal lexicon words => Parser.terminal lexicon (run resolve words)

end Grammar

end Descent
