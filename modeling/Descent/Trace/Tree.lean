import Descent.Trace.Event

/-!
Events read as a tree of calls. `Tree.read` takes any sequence of events, balanced or not: leaving
when nothing is open does nothing, and `Tree.nodes` closes what was left open.
-/

namespace Descent.Trace

/-- One call of a named parser and the calls inside it. -/
inductive Node where
  | mk (name : String) (result : Option String) (children : List Node)
deriving Repr

namespace Node

/-- The name of the parser that was called. -/
def name : Node → String
  | mk name _ _ => name

/-- The value the call produced, as text. -/
def result : Node → Option String
  | mk _ result _ => result

/-- The calls inside this one, earliest first. -/
def children : Node → List Node
  | mk _ _ children => children

/-- A call that has just begun. -/
def opened (name : String) : Node :=
  mk name none []

/-- The call with its value. -/
def withResult (text : String) : Node → Node
  | mk name _ children => mk name (some text) children

/-- The call with later calls inside it. -/
def adopt (nodes : List Node) : Node → Node
  | mk name result children => mk name result (children ++ nodes)

mutual

/-- The first call of the given name in this one and those inside it, outermost first. -/
def find? (wanted : String) : Node → Option Node
  | mk name result children =>
    if name = wanted then some (mk name result children) else findIn? wanted children

/-- The first call of the given name in several. -/
def findIn? (wanted : String) : List Node → Option Node
  | [] => none
  | node :: rest => (find? wanted node).or (findIn? wanted rest)

end

end Node

/-- Calls as they stand in the middle of a run. -/
structure Tree where
  /-- The calls that are not done, innermost first. -/
  openNodes : List Node := []
  /-- The outermost calls that are done, earliest first. -/
  roots : List Node := []
deriving Repr

namespace Tree

/-- What one event does. -/
def see (tree : Tree) : Event → Tree
  | .enter name => { tree with openNodes := .opened name :: tree.openNodes }
  | .result text =>
    match tree.openNodes with
    | [] => tree
    | node :: rest => { tree with openNodes := node.withResult text :: rest }
  | .leave =>
    match tree.openNodes with
    | [] => tree
    | [node] => { openNodes := [], roots := tree.roots ++ [node] }
    | node :: parent :: rest => { tree with openNodes := parent.adopt [node] :: rest }

/-- What several events do, earliest first. -/
def read (tree : Tree) (events : List Event) : Tree :=
  events.foldl see tree

/-- The innermost call that is not done. -/
def current? (tree : Tree) : Option Node :=
  tree.openNodes.head?

/-- The call around the innermost one. -/
def parent? (tree : Tree) : Option Node :=
  tree.openNodes.tail.head?

/-- Hangs finished calls into the innermost of the open ones and closes all of them. -/
def close (inner : List Node) : List Node → List Node
  | [] => inner
  | node :: rest => close [node.adopt inner] rest

/-- All outermost calls, those left open closed from the inside. -/
def nodes (tree : Tree) : List Node :=
  tree.roots ++ close [] tree.openNodes

theorem read_nil (tree : Tree) : tree.read [] = tree := rfl

theorem read_cons (tree : Tree) (event : Event) (events : List Event) :
    tree.read (event :: events) = (tree.see event).read events := rfl

theorem read_append (tree : Tree) (first second : List Event) :
    tree.read (first ++ second) = (tree.read first).read second :=
  List.foldl_append

end Tree

/-- The calls a sequence of events tells of. -/
def forest (events : List Event) : List Node :=
  (Tree.read {} events).nodes

/-- An event, and the names of the innermost call and of the one around it after the event. -/
structure Observation where
  event : Event
  current : Option String
  parent : Option String
deriving Repr, DecidableEq

/-- Follows events one by one. -/
def observe (tree : Tree) : List Event → List Observation
  | [] => []
  | event :: rest =>
    let tree := tree.see event
    ⟨event, tree.current?.map Node.name, tree.parent?.map Node.name⟩ :: observe tree rest

end Descent.Trace
