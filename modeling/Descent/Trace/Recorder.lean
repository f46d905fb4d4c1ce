import Descent.Trace.Log
import Descent.Trace.Tree

/-!
The ways to watch a run: not at all, as a tree of calls, or as lines of a log.
-/

namespace Descent.Trace

/-- What is made of the events of a run. -/
inductive Recorder where
  | off
  | tree
  | log
deriving Repr, DecidableEq

namespace Recorder

/-- The innermost open call after some events, if the recorder knows of calls. -/
def current? (recorder : Recorder) (events : List Event) : Option Node :=
  match recorder with
  | tree => (Tree.read {} events).current?
  | _ => none

/-- The call around the innermost open one. -/
def parent? (recorder : Recorder) (events : List Event) : Option Node :=
  match recorder with
  | tree => (Tree.read {} events).parent?
  | _ => none

/-- The calls the recorder ends with. -/
def nodes (recorder : Recorder) (events : List Event) : List Node :=
  match recorder with
  | tree => forest events
  | _ => []

/-- The lines the recorder writes. -/
def reports (recorder : Recorder) (events : List Event) : List Report :=
  match recorder with
  | log => Trace.log events
  | _ => []

end Recorder

end Descent.Trace
