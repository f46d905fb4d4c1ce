import Descent.Report
import Descent.Trace.Event

/-!
Events read as lines of a log, indented by how many calls are open.
-/

namespace Descent.Trace

/-- Two blanks for each open call. -/
def indent (depth : Nat) : String :=
  String.ofList (List.replicate (2 * depth) ' ')

/-- The lines for a sequence of events, given the names of the open calls, innermost first. Leaving
when nothing is open writes nothing. -/
def linesWithin : List String → List Event → List String
  | _, [] => []
  | names, .enter name :: rest =>
    (indent names.length ++ "> " ++ name) :: linesWithin (name :: names) rest
  | names, .result text :: rest =>
    (indent names.length ++ "= " ++ text) :: linesWithin names rest
  | [], .leave :: rest => linesWithin [] rest
  | name :: names, .leave :: rest =>
    (indent names.length ++ "< " ++ name) :: linesWithin names rest

/-- The log of a sequence of events. -/
def log (events : List Event) : List Report :=
  (linesWithin [] events).map fun text => ⟨.trace, text⟩

end Descent.Trace
