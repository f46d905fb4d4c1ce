import Descent.CaseRule
import Descent.Report

/-!
The fixed vocabulary of a language: its operators and keywords, and whether case matters. No two of
its lexemes are spelled alike, so a name means at most one of them.
-/

namespace Descent

/-- Why a vocabulary is refused. -/
inductive LexiconError where
  /-- Two lexemes are spelled alike. -/
  | duplicate (existing later : String)
  /-- A lexeme has no characters. -/
  | empty
deriving Repr, DecidableEq

/-- The error in words. -/
def LexiconError.message : LexiconError → String
  | .duplicate existing later =>
    "duplicate terminal: \x60" ++ later ++ "\x60 collides with \x60" ++ existing ++ "\x60"
  | .empty => "empty string registered as a terminal"

/-- The first lexeme that is empty or spelled like one before it. Those before it come with their
normal forms. -/
def firstClash (rule : CaseRule) : List (String × String) → List String → Option LexiconError
  | _, [] => none
  | seen, lexeme :: rest =>
    if lexeme = "" then some .empty
    else
      match seen.lookup (rule.normalize lexeme) with
      | some existing => some (.duplicate existing lexeme)
      | none => firstClash rule ((rule.normalize lexeme, lexeme) :: seen) rest

/-- Are all lexemes, operators before keywords, non-empty and spelled differently? -/
def checkLexemes (operators keywords : List String) (rule : CaseRule) : Except LexiconError Unit :=
  match firstClash rule [] (operators ++ keywords) with
  | none => .ok ()
  | some error => .error error

/-- Operators and keywords that do not clash. -/
structure Lexicon where
  operators : List String
  keywords : List String
  rule : CaseRule
  distinct : firstClash rule [] (operators ++ keywords) = none

namespace Lexicon

/-- The vocabulary with the given lexemes, unless they clash. -/
def build (operators keywords : List String) (rule : CaseRule) : Except LexiconError Lexicon :=
  match h : firstClash rule [] (operators ++ keywords) with
  | none => .ok ⟨operators, keywords, rule, h⟩
  | some error => .error error

/-- The keyword spelled like a word. -/
def keyword? (lexicon : Lexicon) (word : String) : Option String :=
  let normal := lexicon.rule.normalize word
  lexicon.keywords.find? fun keyword => lexicon.rule.normalize keyword == normal

/-- The lexeme that a name stands for: the operator of that name, or the keyword spelled like it. -/
def resolve? (lexicon : Lexicon) (name : String) : Option String :=
  (lexicon.operators.find? (· == name)).or (lexicon.keyword? name)

/-- What the log says about a new vocabulary. -/
def builtReport (lexicon : Lexicon) : Report :=
  ⟨.debug, "built terminals: " ++ toString lexicon.operators.length ++ " operators, " ++
    toString lexicon.keywords.length ++ " keywords, " ++ lexicon.rule.name⟩

/-- What the log says about names that stand for nothing, one line each. -/
def unknownReports (lexicon : Lexicon) (names : List String) : List Report :=
  (names.filter fun name => (lexicon.resolve? name).isNone).map fun name =>
    ⟨.warn, "\x60" ++ name ++ "\x60 is not a registered terminal and will never match"⟩

end Lexicon

end Descent
