/-!
Lines for a log: how urgent one is, and what it says.
-/

namespace Descent

/-- How urgent a line of the log is. -/
inductive Level where
  | trace
  | debug
  | warn
deriving Repr, DecidableEq

/-- A line of the log. -/
structure Report where
  level : Level
  text : String
deriving Repr, DecidableEq

end Descent
