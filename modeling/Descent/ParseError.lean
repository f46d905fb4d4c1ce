import Descent.Failure
import Descent.LineIndex
import Descent.Report

/-!
What a user is told about a text that was refused: the place as line and column, and the failure in
words.
-/

namespace Descent

/-- A failure at a place of a source text. -/
structure ParseError where
  location : Location
  message : String
deriving Repr, DecidableEq

namespace ParseError

/-- The error for a failure in a text with the given lines. -/
def locate (failure : Failure) (lines : LineIndex) : ParseError :=
  ⟨lines.locate failure.position, failure.render⟩

/-- The error in one sentence. -/
def display (error : ParseError) : String :=
  "line " ++ toString error.location.line ++ ", column " ++ toString error.location.column ++
    ": " ++ error.message

/-- What the log says about a text that was refused. -/
def report (error : ParseError) : Report :=
  ⟨.debug, "parse failed at " ++ toString error.location.line ++ ":" ++
    toString error.location.column ++ ": " ++ error.message⟩

end ParseError

end Descent
