import Descent.Trace.Tree
import Mathlib.Data.List.Induction

/-!
The tree of calls keeps every call, whatever the events.

What events tell of calls can be said without a tree: which calls have begun (`begun`), which of them
are open, by number (`openCalls`), and what a call was given as its result while it was the innermost
(`resultOf`). A tree is followed as a list of all its calls, the open ones among them, each before the
calls inside it (`Tree.entries`), together with where in this list the open ones stand. A call that
begins comes last in the list, one that is left stays where it is, although it moves from the open calls
into its parent or among the outermost, and a result changes the entry of the innermost call
(`Tree.Tells.see`). So the list of a tree is what the events tell (`Tree.tells_read`), and closing what
was left open keeps it (`Tree.entries_nodes`).
-/

namespace Descent.Trace

/-! ## What events tell of calls -/

/-- The name of the call that begins with an event. -/
def Event.entered? : Event → Option String
  | .enter name => some name
  | .result _ => none
  | .leave => none

/-- The names of the calls that have begun, in this order. The calls are numbered from zero. -/
def begun (events : List Event) : List String :=
  events.filterMap Event.entered?

/-- The numbers of the calls that are open after some events, which are given latest first; the
innermost call comes first. Leaving when nothing is open does nothing. -/
def openAfter : List Event → List Nat
  | [] => []
  | .enter _ :: past => (begun past).length :: openAfter past
  | .result _ :: past => openAfter past
  | .leave :: past => (openAfter past).tail

/-- The result that was told last while a call was the innermost open one; the events are given latest
first. -/
def lastResult (call : Nat) : List Event → Option String
  | [] => none
  | .enter _ :: past => lastResult call past
  | .result text :: past =>
    if (openAfter past).head? = some call then some text else lastResult call past
  | .leave :: past => lastResult call past

/-- The calls that are open after some events, innermost first. -/
def openCalls (events : List Event) : List Nat :=
  openAfter events.reverse

/-- What events tell of the result of a call. -/
def resultOf (call : Nat) (events : List Event) : Option String :=
  lastResult call events.reverse

section

variable (call : Nat) (name text : String) (events : List Event)

theorem length_begun_reverse : (begun events.reverse).length = (begun events).length := by
  rw [begun, List.filterMap_reverse, List.length_reverse, begun]

theorem begun_append (more : List Event) : begun (events ++ more) = begun events ++ begun more :=
  List.filterMap_append

theorem openCalls_enter : openCalls (events ++ [.enter name]) =
    (begun events).length :: openCalls events := by
  rw [openCalls, List.reverse_concat, openAfter, length_begun_reverse, openCalls]

theorem openCalls_result : openCalls (events ++ [.result text]) = openCalls events := by
  rw [openCalls, List.reverse_concat, openAfter, openCalls]

theorem openCalls_leave : openCalls (events ++ [.leave]) = (openCalls events).tail := by
  rw [openCalls, List.reverse_concat, openAfter, openCalls]

theorem resultOf_enter : resultOf call (events ++ [.enter name]) = resultOf call events := by
  rw [resultOf, List.reverse_concat, lastResult, resultOf]

theorem resultOf_result : resultOf call (events ++ [.result text]) =
    if (openCalls events).head? = some call then some text else resultOf call events := by
  rw [resultOf, List.reverse_concat, lastResult, openCalls, resultOf]

theorem resultOf_leave : resultOf call (events ++ [.leave]) = resultOf call events := by
  rw [resultOf, List.reverse_concat, lastResult, resultOf]

end

/-- Only calls that have begun are open. -/
theorem lt_of_mem_openAfter {call : Nat} {past : List Event} (h : call ∈ openAfter past) :
    call < (begun past).length := by
  induction past with
  | nil => cases h
  | cons event past ih =>
    cases event with
    | enter name =>
      have hlength : (begun (.enter name :: past)).length = (begun past).length + 1 := rfl
      rw [hlength]
      rcases List.mem_cons.mp h with rfl | h
      · exact Nat.lt_succ_self _
      · exact Nat.lt_succ_of_lt (ih h)
    | result text => exact ih h
    | leave => exact ih (List.mem_of_mem_tail h)

/-- A call that has not begun has no result. -/
theorem lastResult_eq_none {call : Nat} {past : List Event} (h : (begun past).length ≤ call) :
    lastResult call past = none := by
  induction past with
  | nil => rfl
  | cons event past ih =>
    cases event with
    | enter name => exact ih (Nat.le_of_succ_le h)
    | result text =>
      have hnot : (openAfter past).head? ≠ some call := fun hhead =>
        Nat.not_lt_of_le h (lt_of_mem_openAfter (List.mem_of_head? hhead))
      rw [lastResult, if_neg hnot]
      exact ih h
    | leave => exact ih h

theorem resultOf_eq_none {call : Nat} {events : List Event} (h : (begun events).length ≤ call) :
    resultOf call events = none :=
  lastResult_eq_none (by rwa [length_begun_reverse])

/-! ## Calls in order -/

namespace Node

mutual

/-- A call and the calls inside it, each with how many are around it, and before those inside it. -/
def preorder (depth : Nat) : Node → List (Nat × Node)
  | mk name result children => (depth, mk name result children) :: preorderOf (depth + 1) children

/-- Several calls and those inside them, one after another. -/
def preorderOf (depth : Nat) : List Node → List (Nat × Node)
  | [] => []
  | node :: rest => preorder depth node ++ preorderOf depth rest

end

/-- A call and those inside it, each before those inside it. -/
def subtree (node : Node) : List Node :=
  (node.preorder 0).map Prod.snd

/-- What is said of a call and stays when others are hung into it. -/
structure Entry where
  depth : Nat
  name : String
  result : Option String
deriving Repr, DecidableEq

/-- The entries of several calls and those inside them. -/
def entriesOf (depth : Nat) (nodes : List Node) : List Entry :=
  (preorderOf depth nodes).map fun placed => ⟨placed.1, placed.2.name, placed.2.result⟩

theorem preorderOf_append (depth : Nat) (nodes more : List Node) :
    preorderOf depth (nodes ++ more) = preorderOf depth nodes ++ preorderOf depth more := by
  induction nodes with
  | nil => rfl
  | cons node rest ih => rw [List.cons_append, preorderOf, preorderOf, ih, List.append_assoc]

theorem entriesOf_append (depth : Nat) (nodes more : List Node) :
    entriesOf depth (nodes ++ more) = entriesOf depth nodes ++ entriesOf depth more := by
  rw [entriesOf, preorderOf_append, List.map_append, entriesOf, entriesOf]

theorem entriesOf_mk (depth : Nat) (name : String) (result : Option String)
    (children : List Node) : entriesOf depth [mk name result children] =
      ⟨depth, name, result⟩ :: entriesOf (depth + 1) children := by
  rw [entriesOf, preorderOf, preorderOf, preorder, List.append_nil, List.map_cons]
  rfl

theorem entriesOf_adopt (depth : Nat) (node : Node) (nodes : List Node) :
    entriesOf depth [node.adopt nodes] = entriesOf depth [node] ++ entriesOf (depth + 1) nodes := by
  cases node with
  | mk name result children =>
    rw [adopt, entriesOf_mk, entriesOf_mk, entriesOf_append, List.cons_append]

/-! ## The first of a name -/

mutual

theorem find?_eq (wanted : String) (depth : Nat) : (node : Node) → node.find? wanted =
    ((node.preorder depth).map Prod.snd).find? fun other => other.name = wanted
  | mk name result children => by
    have hchildren := findIn?_eq wanted (depth + 1) children
    rw [find?, preorder, List.map_cons]
    by_cases hname : name = wanted
    · rw [if_pos hname, List.find?_cons_of_pos (by simp [Node.name, hname])]
    · rw [if_neg hname, List.find?_cons_of_neg (by simp [Node.name, hname]), hchildren]

theorem findIn?_eq (wanted : String) (depth : Nat) : (nodes : List Node) → findIn? wanted nodes =
    ((preorderOf depth nodes).map Prod.snd).find? fun other => other.name = wanted
  | [] => rfl
  | node :: rest => by
    rw [findIn?, find?_eq wanted depth node, findIn?_eq wanted depth rest, preorderOf,
      List.map_append, List.find?_append]

end

theorem find?_eq_some_iff {wanted : String} {node found : Node} : node.find? wanted = some found ↔
    ∃ before after, node.subtree = before ++ found :: after ∧ found.name = wanted ∧
      ∀ other ∈ before, other.name ≠ wanted := by
  rw [find?_eq wanted 0, List.find?_eq_some_iff_append]
  simp only [decide_eq_true_eq, Bool.not_eq_true', decide_eq_false_iff_not, subtree]
  constructor
  · rintro ⟨hname, before, after, hsplit, hbefore⟩
    exact ⟨before, after, hsplit, hname, hbefore⟩
  · rintro ⟨before, after, hsplit, hname, hbefore⟩
    exact ⟨hname, before, after, hsplit, hbefore⟩

theorem find?_eq_none_iff {wanted : String} {node : Node} :
    node.find? wanted = none ↔ ∀ other ∈ node.subtree, other.name ≠ wanted := by
  rw [find?_eq wanted 0, List.find?_eq_none, subtree]
  simp only [decide_eq_true_eq, ne_eq]

end Node

/-! ## The tree as a list -/

namespace Tree

open Node (Entry entriesOf)

/-- The entries of the outermost calls that are done and of open ones, which are given innermost
first. -/
def entriesWithin (roots : List Node) : List Node → List Entry
  | [] => entriesOf 0 roots
  | node :: rest => entriesWithin roots rest ++ entriesOf rest.length [node]

/-- Where among these the entries of the open calls stand. -/
def placesWithin (roots : List Node) : List Node → List Nat
  | [] => []
  | _ :: rest => (entriesWithin roots rest).length :: placesWithin roots rest

/-- The entries of all calls of a tree. -/
def entries (tree : Tree) : List Entry :=
  entriesWithin tree.roots tree.openNodes

/-- Where the entries of the open calls stand, innermost first. -/
def openPlaces (tree : Tree) : List Nat :=
  placesWithin tree.roots tree.openNodes

theorem length_placesWithin (roots nodes : List Node) :
    (placesWithin roots nodes).length = nodes.length := by
  induction nodes with
  | nil => rfl
  | cons _ rest ih => rw [placesWithin, List.length_cons, List.length_cons, ih]

theorem entriesOf_close (roots inner nodes : List Node) :
    entriesOf 0 (roots ++ close inner nodes) =
      entriesWithin roots nodes ++ entriesOf nodes.length inner := by
  induction nodes generalizing inner with
  | nil => rw [close, Node.entriesOf_append]; rfl
  | cons node rest ih =>
    rw [close, ih, Node.entriesOf_adopt, entriesWithin, List.length_cons, List.append_assoc]

/-- Closing what was left open keeps all entries as they are. -/
theorem entries_nodes (tree : Tree) : entriesOf 0 tree.nodes = tree.entries := by
  rw [nodes, entriesOf_close]
  exact List.append_nil _

/-! ## Event by event -/

section

variable (tree : Tree) (name text : String)

theorem entries_enter : (tree.see (.enter name)).entries =
    tree.entries ++ [⟨tree.openPlaces.length, name, none⟩] := by
  rw [openPlaces, length_placesWithin]
  rfl

theorem openPlaces_enter :
    (tree.see (.enter name)).openPlaces = tree.entries.length :: tree.openPlaces := rfl

/-- What is left is hung into its parent or among the outermost calls, where its entry stands
already. -/
theorem entries_leave : (tree.see .leave).entries = tree.entries := by
  obtain ⟨openNodes, roots⟩ := tree
  match openNodes with
  | [] => rfl
  | [node] => exact Node.entriesOf_append 0 roots [node]
  | node :: parent :: rest =>
    have hparent := Node.entriesOf_adopt rest.length parent [node]
    simp only [see, entries, entriesWithin, hparent, List.append_assoc, List.length_cons]

theorem openPlaces_leave : (tree.see .leave).openPlaces = tree.openPlaces.tail := by
  obtain ⟨openNodes, roots⟩ := tree
  match openNodes with
  | [] => rfl
  | [node] => rfl
  | node :: parent :: rest => rfl

theorem openPlaces_result : (tree.see (.result text)).openPlaces = tree.openPlaces := by
  obtain ⟨openNodes, roots⟩ := tree
  cases openNodes <;> rfl

/-- A result is kept in the entry of the innermost open call. -/
theorem entries_result (i : Nat) : (tree.see (.result text)).entries[i]? =
    if tree.openPlaces.head? = some i then
      tree.entries[i]?.map fun entry => { entry with result := some text }
    else tree.entries[i]? := by
  obtain ⟨openNodes, roots⟩ := tree
  cases openNodes with
  | nil => rfl
  | cons node rest =>
    obtain ⟨own, result, children⟩ := node
    simp only [see, entries, openPlaces, entriesWithin, placesWithin, Node.withResult,
      Node.entriesOf_mk, List.head?_cons, Option.some.injEq]
    rcases Nat.lt_trichotomy i (entriesWithin roots rest).length with hlt | rfl | hgt
    · rw [if_neg (Nat.ne_of_gt hlt), List.getElem?_append_left hlt, List.getElem?_append_left hlt]
    · rw [if_pos rfl, List.getElem?_append_right (Nat.le_refl _),
        List.getElem?_append_right (Nat.le_refl _), Nat.sub_self]
      rfl
    · obtain ⟨k, rfl⟩ := Nat.exists_eq_add_of_lt hgt
      rw [if_neg (Nat.ne_of_lt hgt), List.getElem?_append_right (Nat.le_of_lt hgt),
        List.getElem?_append_right (Nat.le_of_lt hgt), Nat.add_assoc, Nat.add_sub_cancel_left,
        List.getElem?_cons_succ, List.getElem?_cons_succ]

theorem names_result :
    (tree.see (.result text)).entries.map Entry.name = tree.entries.map Entry.name := by
  obtain ⟨openNodes, roots⟩ := tree
  cases openNodes with
  | nil => rfl
  | cons node rest =>
    obtain ⟨own, result, children⟩ := node
    simp only [see, entries, entriesWithin, Node.withResult, Node.entriesOf_mk, List.map_append,
      List.map_cons]

end

/-! ## What a tree tells -/

/-- The list of a tree is what the events tell: it has the names of the calls that have begun, in this
order; the open calls stand in it where their numbers say; and the entry of each call says how many
calls were open when it began, and its result. -/
structure Tells (events : List Event) (tree : Tree) : Prop where
  names : tree.entries.map Entry.name = begun events
  opened : tree.openPlaces = openCalls events
  entry (before : List Event) (name : String) (after : List Event)
    (h : events = before ++ .enter name :: after) :
    tree.entries[(begun before).length]? =
      some ⟨(openCalls before).length, name, resultOf (begun before).length events⟩

namespace Tells

variable {events : List Event} {tree : Tree}

theorem length_entries (h : tree.Tells events) : tree.entries.length = (begun events).length := by
  rw [← h.names, List.length_map]

/-- What was told before another event. -/
theorem entry_of_concat (h : tree.Tells events) {event : Event} {before after : List Event}
    {name : String} (hsplit : events ++ [event] = before ++ .enter name :: after) :
    (before = events ∧ event = .enter name) ∨
      (begun before).length < tree.entries.length ∧ tree.entries[(begun before).length]? =
        some ⟨(openCalls before).length, name, resultOf (begun before).length events⟩ := by
  rcases List.eq_nil_or_concat after with rfl | ⟨after, last, rfl⟩
  · obtain ⟨rfl, heq⟩ := List.append_inj' hsplit rfl
    exact .inl ⟨rfl, List.singleton_inj.mp heq⟩
  · rw [List.concat_eq_append, ← List.cons_append, ← List.append_assoc] at hsplit
    obtain ⟨hevents, -⟩ := List.append_inj' hsplit rfl
    have hentry := h.entry before name after hevents
    exact .inr ⟨(List.getElem?_eq_some_iff.mp hentry).1, hentry⟩

/-- One event more. -/
theorem see (h : tree.Tells events) (event : Event) :
    (tree.see event).Tells (events ++ [event]) := by
  cases event with
  | enter name =>
    refine ⟨?_, ?_, fun before name' after hsplit => ?_⟩
    · rw [entries_enter, List.map_append, h.names, begun_append]
      rfl
    · rw [openPlaces_enter, openCalls_enter, h.opened, h.length_entries]
    · rw [entries_enter, resultOf_enter, h.opened]
      rcases h.entry_of_concat hsplit with ⟨rfl, ⟨⟩⟩ | ⟨hlt, hentry⟩
      · rw [resultOf_eq_none (Nat.le_refl _), ← h.length_entries, List.getElem?_concat_length]
      · rw [List.getElem?_append_left hlt, hentry]
  | result text =>
    refine ⟨?_, ?_, fun before name after hsplit => ?_⟩
    · rw [names_result, h.names, begun_append]
      exact (List.append_nil _).symm
    · rw [openPlaces_result, openCalls_result, h.opened]
    · rcases h.entry_of_concat hsplit with ⟨-, ⟨⟩⟩ | ⟨-, hentry⟩
      rw [entries_result, resultOf_result, h.opened, hentry]
      split <;> rfl
  | leave =>
    refine ⟨?_, ?_, fun before name after hsplit => ?_⟩
    · rw [entries_leave, h.names, begun_append]
      exact (List.append_nil _).symm
    · rw [openPlaces_leave, openCalls_leave, h.opened]
    · rcases h.entry_of_concat hsplit with ⟨-, ⟨⟩⟩ | ⟨-, hentry⟩
      rw [entries_leave, resultOf_leave, hentry]

end Tells

/-- From the beginning, a tree tells what the events tell. -/
theorem tells_read (events : List Event) : (Tree.read {} events).Tells events := by
  induction events using List.reverseRecOn with
  | nil =>
    refine ⟨rfl, rfl, fun before name after hsplit => ?_⟩
    exact absurd hsplit.symm (List.append_ne_nil_of_right_ne_nil _ (List.cons_ne_nil _ _))
  | append_singleton events event ih =>
    rw [read_append]
    exact ih.see event

end Tree

/-! ## All calls -/

/-- **The tree of calls keeps every call in order.** Whatever the events, balanced or not, it has one
call for each that has begun, in the order in which they did if each is listed before those inside it.
As many calls are around each of them as were open when it began, and its result is the one told last
while it was the innermost. And a call is found by its name as the first of that name in this order,
if there is one. -/
theorem forest_keeps (events : List Event) :
    (Node.preorderOf 0 (forest events)).length = (begun events).length ∧
    (Node.preorderOf 0 (forest events)).map (fun placed => placed.2.name) = begun events ∧
    (∀ before name after, events = before ++ .enter name :: after →
      ∃ node, (Node.preorderOf 0 (forest events))[(begun before).length]? =
          some ((openCalls before).length, node) ∧
        node.name = name ∧ node.result = resultOf (begun before).length events) ∧
    ∀ (node : Node) (wanted : String),
      (∀ found, node.find? wanted = some found ↔
        ∃ before after, node.subtree = before ++ found :: after ∧ found.name = wanted ∧
          ∀ other ∈ before, other.name ≠ wanted) ∧
      (node.find? wanted = none ↔ ∀ other ∈ node.subtree, other.name ≠ wanted) := by
  have htells := Tree.tells_read events
  have hentries : Node.entriesOf 0 (forest events) = (Tree.read {} events).entries :=
    Tree.entries_nodes _
  have hnames : (Node.preorderOf 0 (forest events)).map (fun placed => placed.2.name) =
      begun events := by
    rw [← htells.names, ← hentries, Node.entriesOf, List.map_map]
    rfl
  refine ⟨?_, hnames, fun before name after hsplit => ?_, fun node wanted =>
    ⟨fun found => Node.find?_eq_some_iff, Node.find?_eq_none_iff⟩⟩
  · rw [← hnames, List.length_map]
  · have hentry := htells.entry before name after hsplit
    rw [← hentries, Node.entriesOf, List.getElem?_map, Option.map_eq_some_iff] at hentry
    obtain ⟨⟨depth, node⟩, hplaced, hsame⟩ := hentry
    obtain ⟨rfl, hname, hresult⟩ := Node.Entry.mk.inj hsame
    exact ⟨node, hplaced, hname, hresult⟩

/-- Something is left before anything has begun, the first call gets a second result when the one inside
it is done, and two calls are never left. -/
def unbalanced : List Event :=
  [.leave, .enter "a", .result "1", .enter "b", .result "2", .leave, .result "3", .enter "c"]

/-- The first call is outermost and keeps its second result; the last one is inside it and has none. -/
theorem unbalanced_keeps :
    unbalanced = [.leave] ++ .enter "a" :: unbalanced.drop 2 ∧
    unbalanced = unbalanced.take 7 ++ .enter "c" :: [] ∧
    (∃ node, (Node.preorderOf 0 (forest unbalanced))[0]? = some (0, node) ∧ node.name = "a" ∧
      node.result = some "3") ∧
    ∃ node, (Node.preorderOf 0 (forest unbalanced))[2]? = some (1, node) ∧ node.name = "c" ∧
      node.result = none := by
  obtain ⟨-, -, hkeeps, -⟩ := forest_keeps unbalanced
  exact ⟨rfl, rfl, hkeeps [.leave] "a" _ rfl, hkeeps (unbalanced.take 7) "c" [] rfl⟩

end Descent.Trace
