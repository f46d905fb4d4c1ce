/-!
What a run leaves behind for those who watch it: named parsers are entered and left, and some of
them tell their value. A run only writes events down; what becomes of them is up to the reader, so
watching cannot change a run.
-/

namespace Descent.Trace

/-- Something that happened to a named parser. -/
inductive Event where
  /-- A parser of this name starts. -/
  | enter (name : String)
  /-- The parser entered last produced this value. -/
  | result (text : String)
  /-- The parser entered last is done. -/
  | leave
deriving Repr, DecidableEq

end Descent.Trace
