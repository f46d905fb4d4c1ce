import Descent.Trace.Recorder

/-!
Two ways to watch the same calls.

The events of calls that are all done are nested (`Node.eventsOf`). From such events the tree of calls
gives the calls back (`forest_eventsOf`), and the log lists them line by line, the ones inside further
to the right (`Node.linesOf`, `log_eventsOf`). The tree keeps the calls that are open and the log
their names only, so each is followed through calls within any open ones.
-/

namespace Descent.Trace

namespace Node

mutual

/-- The events of a call that is done, and of those inside it. -/
def events : Node → List Event
  | mk name result children =>
    .enter name :: (eventsOf children ++ (result.map Event.result).toList ++ [.leave])

/-- The events of several calls one after another. -/
def eventsOf : List Node → List Event
  | [] => []
  | node :: rest => events node ++ eventsOf rest

end

mutual

/-- A call on lines, inside so many others: where it begins, the calls inside it, its value if it has
one, and where it ends. -/
def lines (depth : Nat) : Node → List String
  | mk name result children =>
    (indent depth ++ "> " ++ name) ::
      (linesOf (depth + 1) children ++
        (result.map fun text => indent (depth + 1) ++ "= " ++ text).toList ++
        [indent depth ++ "< " ++ name])

/-- Several calls on lines, one after another. -/
def linesOf (depth : Nat) : List Node → List String
  | [] => []
  | node :: rest => lines depth node ++ linesOf depth rest

end

theorem eventsOf_append (nodes nodes' : List Node) :
    eventsOf (nodes ++ nodes') = eventsOf nodes ++ eventsOf nodes' := by
  induction nodes with
  | nil => rfl
  | cons node rest ih => simp only [List.cons_append, eventsOf, ih, List.append_assoc]

theorem adopt_nil (node : Node) : node.adopt [] = node := by
  cases node with
  | mk name result children => rw [adopt, List.append_nil]

theorem adopt_adopt (node : Node) (nodes nodes' : List Node) :
    (node.adopt nodes).adopt nodes' = node.adopt (nodes ++ nodes') := by
  cases node with
  | mk name result children => rw [adopt, adopt, adopt, List.append_assoc]

end Node

/-! ## The log -/

mutual

/-- Within open calls, the log goes through a call and is where it was. -/
theorem linesWithin_events (names : List String) (rest : List Event) :
    (node : Node) → linesWithin names (node.events ++ rest) =
      node.lines names.length ++ linesWithin names rest
  | .mk name result children => by
    have hchildren := linesWithin_eventsOf (name :: names)
      ((result.map Event.result).toList ++ (.leave :: rest)) children
    have hresult : linesWithin (name :: names)
        ((result.map Event.result).toList ++ (.leave :: rest)) =
        (result.map fun text => indent (names.length + 1) ++ "= " ++ text).toList ++
          ((indent names.length ++ "< " ++ name) :: linesWithin names rest) := by
      cases result <;> rfl
    rw [hresult] at hchildren
    simp only [Node.events, Node.lines, List.cons_append, List.append_assoc, linesWithin,
      List.nil_append, hchildren, List.length_cons]

theorem linesWithin_eventsOf (names : List String) (rest : List Event) :
    (nodes : List Node) → linesWithin names (Node.eventsOf nodes ++ rest) =
      Node.linesOf names.length nodes ++ linesWithin names rest
  | [] => rfl
  | node :: nodes => by
    rw [Node.eventsOf, List.append_assoc, linesWithin_events names _ node,
      linesWithin_eventsOf names rest nodes, Node.linesOf, List.append_assoc]

end

/-- The log of calls that are done. -/
theorem log_eventsOf (nodes : List Node) :
    log (Node.eventsOf nodes) = (Node.linesOf 0 nodes).map fun text => ⟨.trace, text⟩ := by
  have hlines := linesWithin_eventsOf [] [] nodes
  rw [List.append_nil, linesWithin, List.append_nil] at hlines
  rw [log, hlines, List.length_nil]

/-! ## The tree -/

namespace Tree

/-- Calls that are done, hung into the innermost open call, or among the outermost if none is open. -/
def hang (tree : Tree) (nodes : List Node) : Tree :=
  match tree.openNodes with
  | [] => { tree with roots := tree.roots ++ nodes }
  | node :: rest => { tree with openNodes := node.adopt nodes :: rest }

theorem hang_nil (tree : Tree) : tree.hang [] = tree := by
  obtain ⟨openNodes, roots⟩ := tree
  cases openNodes with
  | nil => simp only [hang, List.append_nil]
  | cons node rest => simp only [hang, Node.adopt_nil]

theorem hang_hang (tree : Tree) (nodes nodes' : List Node) :
    (tree.hang nodes).hang nodes' = tree.hang (nodes ++ nodes') := by
  obtain ⟨openNodes, roots⟩ := tree
  cases openNodes with
  | nil => simp only [hang, List.append_assoc]
  | cons node rest => simp only [hang, Node.adopt_adopt]

/-- The innermost call is done. -/
theorem see_leave (tree : Tree) (node : Node) :
    see { tree with openNodes := node :: tree.openNodes } .leave = tree.hang [node] := by
  obtain ⟨openNodes, roots⟩ := tree
  cases openNodes <;> rfl

mutual

/-- Within open calls, the tree goes through a call and hangs it into the innermost. -/
theorem read_events (tree : Tree) : (node : Node) → tree.read node.events = tree.hang [node]
  | .mk name result children => by
    have hchildren := read_eventsOf (tree.see (.enter name)) children
    have hinside : (tree.see (.enter name)).hang children =
        { tree with openNodes := .mk name none children :: tree.openNodes } := rfl
    have hresult : read { tree with openNodes := .mk name none children :: tree.openNodes }
        (result.map Event.result).toList =
        { tree with openNodes := .mk name result children :: tree.openNodes } := by
      cases result <;> rfl
    rw [Node.events, read_cons, read_append, read_append, hchildren, hinside, hresult, read_cons,
      read_nil, see_leave]

theorem read_eventsOf (tree : Tree) :
    (nodes : List Node) → tree.read (Node.eventsOf nodes) = tree.hang nodes
  | [] => tree.hang_nil.symm
  | node :: nodes => by
    rw [Node.eventsOf, read_append, read_events tree node, read_eventsOf _ nodes, hang_hang,
      List.singleton_append]

end

end Tree

/-- The tree of calls that are done has them all. -/
theorem forest_eventsOf (nodes : List Node) : forest (Node.eventsOf nodes) = nodes := by
  rw [forest, Tree.read_eventsOf]
  exact List.append_nil nodes

end Descent.Trace
