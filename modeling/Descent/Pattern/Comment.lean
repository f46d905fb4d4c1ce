import Descent.Pattern.Basic

/-!
Comments: to the end of the line, or between two marks. Comments between marks do not nest, and one
that is never closed does not match.
-/

namespace Descent.Pattern

/-- A mark and what follows it on its line; the line break is not taken. -/
def lineComment (mark : List Char) : Pattern :=
  andThen (literal mark) (many (· != '\n'))

/-- Everything up to and including the first occurrence of a mark. -/
def upTo (mark : List Char) : Pattern
  | [] => none
  | c :: rest =>
    if mark.isPrefixOf (c :: rest) then some mark.length else (upTo mark rest).map (1 + ·)

/-- An opening mark and everything to the first closing mark after it. -/
def blockComment (opening closing : List Char) : Pattern :=
  andThen (literal opening) (upTo closing)

end Descent.Pattern
