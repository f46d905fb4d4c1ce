import Descent.Proofs.Application
import Descent.Proofs.Calls
import Descent.Proofs.Recorded

/-!
Every call is one node, and calls keep their own results.

`Application.nodes` are the calls of named parsers in an application, as they lie inside one another.
An application that ends has added the events of just these calls (`Application.events_outcome`): the
applications directly inside it take up the events one after another (`Linked`), and one with a name
writes down when it begins and when it ends. All kinds of them do (`Application.Links`). So a tree that
follows the events has, when an application ends, the same calls open as when it began, and the new
calls are hung into the innermost of these (`Application.calls_balanced`).
-/

namespace Descent

open Trace (Event Node Tree)

/-! ## Trees that grow -/

/-- What calls that are done leave of a tree: the same calls are open, with the names and the results
they had; those around the innermost are as they were; and the new calls come last inside the
innermost one, or last of all if none is open. -/
structure Trace.Tree.Grows (before : Tree) (nodes : List Node) (after : Tree) : Prop where
  length : after.openNodes.length = before.openNodes.length
  names : after.openNodes.map Node.name = before.openNodes.map Node.name
  results : after.openNodes.map Node.result = before.openNodes.map Node.result
  around : after.openNodes.tail = before.openNodes.tail
  inside : after.current?.map Node.children = before.current?.map (·.children ++ nodes)
  roots : after.roots = before.roots ++ if before.openNodes.isEmpty then nodes else []

theorem Trace.Tree.grows_hang (tree : Tree) (nodes : List Node) :
    tree.Grows nodes (tree.hang nodes) := by
  obtain ⟨openNodes, roots⟩ := tree
  cases openNodes with
  | nil => exact ⟨rfl, rfl, rfl, rfl, rfl, rfl⟩
  | cons node rest =>
    obtain ⟨name, result, children⟩ := node
    exact ⟨rfl, rfl, rfl, rfl, rfl, (List.append_nil roots).symm⟩

/-! ## The calls in an application -/

namespace Application

variable {S : Scope}

/-- The name under which an application is watched. -/
def name? : Application S → Option String
  | ⟨_, .label name _, _⟩ => some name
  | ⟨_, .traced name _ _, _⟩ => some name
  | _ => none

variable (bindings : Bindings S)

/-- What an application tells of its value. -/
def result? : Application S → Option String
  | ⟨depth, .traced name render p, s⟩ =>
    match (Grammar.traced name render p).run (bindings.resolver depth) s with
    | .ok x _ => some (render x)
    | _ => none
  | _ => none

/-- The calls in an application: those inside it, or, if it has a name, one call around them. -/
def nodes (app : Application S) : List Node :=
  let inside := (app.inner bindings).attach.flatMap fun inside => nodes inside.1
  match app.name? with
  | some name => [.mk name (app.result? bindings) inside]
  | none => inside
termination_by (inner_wellFounded bindings).wrap app
decreasing_by exact inside.2

theorem nodes_eq (app : Application S) :
    app.nodes bindings =
      match app.name? with
      | some name => [.mk name (app.result? bindings) ((app.inner bindings).flatMap (nodes bindings))]
      | none => (app.inner bindings).flatMap (nodes bindings) := by
  rw [nodes, List.flatMap_subtype (fun _ _ => rfl), List.unattach_attach]

/-- What an application writes down before those inside it, latest first. -/
def opening (app : Application S) : List Event :=
  (app.name?.map Event.enter).toList

/-- What an application writes down after those inside it, latest first. -/
def closing (app : Application S) : List Event :=
  match app.name? with
  | some _ => .leave :: ((app.result? bindings).map Event.result).toList
  | none => []

variable {bindings}

/-- The events of an application with a name are those of its call, without one those inside it. -/
theorem eventsOf_nodes (app : Application S) :
    (Node.eventsOf (app.nodes bindings)).reverse =
      app.closing bindings ++
        ((Node.eventsOf ((app.inner bindings).flatMap (nodes bindings))).reverse ++ app.opening) := by
  rw [nodes_eq, closing, opening]
  cases app.name? with
  | some name => cases app.result? bindings <;> simp [Node.eventsOf, Node.events]
  | none => simp

/-! ## One after another -/

/-- From some events to later ones, applications take them up from one another: each begins with
those that the one before has left. -/
inductive Linked (bindings : Bindings S) : List Event → List (Application S) → List Event → Prop where
  | nil (events : List Event) : Linked bindings events [] events
  | ok (app : Application S) {rest : List (Application S)} {later : List Event} {x : app.Value}
      {t : State app.alphabet} (h : app.outcome bindings = .ok x t)
      (hrest : Linked bindings t.events rest later) :
      Linked bindings app.state.events (app :: rest) later
  | fail (app : Application S) {rest : List (Application S)} {later : List Event}
      {severity : Severity} {t : State app.alphabet} (h : app.outcome bindings = .fail severity t)
      (hrest : Linked bindings t.events rest later) :
      Linked bindings app.state.events (app :: rest) later

section

variable {a : Alphabet} {α : Type} {depth : Nat} {p : Grammar S a α} {s t : State a} {x : α}
  {severity : Severity}

theorem Linked.single_ok (h : p.run (bindings.resolver depth) s = .ok x t) :
    Linked bindings s.events [⟨depth, p, s⟩] t.events :=
  .ok ⟨depth, p, s⟩ h (.nil _)

theorem Linked.single_fail (h : p.run (bindings.resolver depth) s = .fail severity t) :
    Linked bindings s.events [⟨depth, p, s⟩] t.events :=
  .fail ⟨depth, p, s⟩ h (.nil _)

theorem single_linked (p : Grammar S a α) (s : State a) :
    (p.run (bindings.resolver depth) s).Ends fun t =>
      Linked bindings s.events [⟨depth, p, s⟩] t.events := by
  cases h : p.run (bindings.resolver depth) s with
  | ok x t => exact .single_ok h
  | fail severity t => exact .single_fail h
  | fault g => trivial

/-- The rounds of a repetition take up the events from one another. -/
theorem iterate_linked (p : Grammar S a α) (n : Nat) (s : State a) :
    (Parser.iterate (p.run (bindings.resolver depth)) n s).Ends fun t =>
      Linked bindings s.events
        (((p.run (bindings.resolver depth)).rounds n s).map fun u => ⟨depth, p, u⟩) t.events := by
  induction n generalizing s with
  | zero => trivial
  | succ n ih =>
    unfold Parser.rounds
    cases h : p.run (bindings.resolver depth) s with
    | ok x t =>
      by_cases hindex : t.index = s.index
      · rw [Parser.iterate_stuck h hindex]; trivial
      · rw [Parser.iterate_moved h hindex]
        simp only [if_neg hindex, List.map_cons]
        exact ((ih t).map (x :: ·)).imp fun u hu => .ok ⟨depth, p, s⟩ h hu
    | fail severity t =>
      have hlast := Linked.single_fail h
      cases severity with
      | recoverable => rw [Parser.iterate_recoverable h]; exact hlast
      | committed => rw [Parser.iterate_committed h]; exact hlast
    | fault g => rw [Parser.iterate_fault h]; trivial

/-- The grammar for words is the one application inside an operator or word. -/
theorem terminal_linked (lexicon : Lexicon) (words : Grammar S .text Unit) (s : State .text)
    (hout : ¬ (s.input.length < s.index ∧ lexicon.operators ≠ [])) :
    (Parser.terminal lexicon (words.run (bindings.resolver depth)) s).Ends fun t =>
      Linked bindings s.events [⟨depth, words, s.dropFailure⟩] t.events := by
  cases h : Parser.scanWord (words.run (bindings.resolver depth)) s with
  | error g => rw [Parser.terminal_fault hout h]; trivial
  | ok scanned =>
    obtain ⟨stop, t⟩ := scanned
    have hwords : Linked bindings s.events [⟨depth, words, s.dropFailure⟩] t.events := by
      cases h' : words.run (bindings.resolver depth) s.dropFailure with
      | ok x u =>
        rw [Parser.scanWord_ok h'] at h
        cases h
        exact Linked.single_ok h'
      | fail severity u =>
        rw [Parser.scanWord_fail h'] at h
        cases h
        exact Linked.single_fail h'
      | fault g => rw [Parser.scanWord_fault h'] at h; cases h
    have hcut : ∀ n kind, (Parser.cut n kind t).Ends fun u =>
        Linked bindings s.events [⟨depth, words, s.dropFailure⟩] u.events := by
      intro n kind
      unfold Parser.cut
      split
      · exact hwords
      · trivial
    rcases Parser.terminal_scanned hout h with ⟨-, -, h'⟩ | ⟨n, -, -, h'⟩ | ⟨operator, -, -, h'⟩
    · rw [h']; exact hwords
    · rw [h']; exact hcut n _
    · rw [h']; exact hcut _ _

end

/-- What an application does, if it ends: it writes down that it begins, those inside it take up the
events from one another, and it writes down that it ends. -/
def Links (bindings : Bindings S) (app : Application S) : Prop :=
  (app.outcome bindings).Ends fun t => ∃ events,
    Linked bindings (app.opening ++ app.state.events) (app.inner bindings) events ∧
      t.events = app.closing bindings ++ events

namespace Links

variable {a : Alphabet} {α β γ : Type} {depth : Nat} {p q : Grammar S a α} {s : State a}

theorem item (extract : a.Item → Option α) (names : List String) :
    Links bindings ⟨depth, .item extract names, s⟩ := by
  rw [Links, outcome, Grammar.run, Parser.item]
  split
  · exact ⟨_, .nil _, State.events_advance s⟩
  · exact ⟨_, .nil _, rfl⟩

theorem atEnd : Links bindings ⟨depth, (.atEnd : Grammar S a Unit), s⟩ := by
  rw [Links, outcome, Grammar.run, Parser.atEnd]
  split <;> exact ⟨_, .nil _, rfl⟩

theorem scan {s : State .text} (matcher : List Char → Nat → Option (Nat × α)) (name : String) :
    Links bindings ⟨depth, .scan matcher name, s⟩ := by
  rw [Links, outcome, Grammar.run, Parser.scan]
  split
  · split
    · exact ⟨_, .nil _, rfl⟩
    · trivial
  · exact ⟨_, .nil _, rfl⟩

theorem map (f : α → β) : Links bindings ⟨depth, .map f p, s⟩ :=
  ((single_linked p s).map f).imp fun _ ht => ⟨_, ht, rfl⟩

theorem seqWith (f : α → β → γ) {q : Grammar S a β} :
    Links bindings ⟨depth, .seqWith f p q, s⟩ := by
  rw [Links, outcome, Grammar.run]
  cases h : p.run (bindings.resolver depth) s with
  | ok x t =>
    simp only [inner, h]
    rw [Parser.seqWith_of_ok h]
    exact (((single_linked q t).map (f x)).backTo fun _ hu => hu).imp fun u hu =>
      ⟨_, .ok ⟨depth, p, s⟩ h hu, rfl⟩
  | fail severity t =>
    simp only [inner, h]
    rw [Parser.seqWith_fail h]
    exact ⟨_, .single_fail h, rfl⟩
  | fault g => rw [Parser.seqWith_fault h]; trivial

theorem orElse : Links bindings ⟨depth, .orElse p q, s⟩ := by
  rw [Links, outcome, Grammar.run]
  cases h : p.run (bindings.resolver depth) s with
  | ok x t =>
    simp only [inner, h]
    rw [Parser.orElse_ok h]
    exact ⟨_, .single_ok h, rfl⟩
  | fail severity t =>
    cases severity with
    | recoverable =>
      simp only [inner, h]
      rw [Parser.orElse_recoverable h]
      exact (single_linked q (t.restore s.index)).imp fun u hu =>
        ⟨_, .fail ⟨depth, p, s⟩ h hu, rfl⟩
    | committed =>
      simp only [inner, h]
      rw [Parser.orElse_committed h]
      exact ⟨_, .single_fail h, rfl⟩
  | fault g => rw [Parser.orElse_fault h]; trivial

theorem atomic : Links bindings ⟨depth, .atomic p, s⟩ := by
  rw [Links, outcome, Grammar.run]
  cases h : p.run (bindings.resolver depth) { s with mark := s.index } with
  | ok x t => rw [Parser.atomic_ok h]; exact ⟨_, .single_ok h, rfl⟩
  | fail severity t =>
    cases severity with
    | recoverable =>
      by_cases hmark : s.index < t.mark
      · rw [Parser.atomic_consumed h hmark]; exact ⟨_, .single_fail h, rfl⟩
      · rw [Parser.atomic_untouched h hmark]; exact ⟨_, .single_fail h, rfl⟩
    | committed => rw [Parser.atomic_committed h]; exact ⟨_, .single_fail h, rfl⟩
  | fault g => rw [Parser.atomic_fault h]; trivial

theorem peek : Links bindings ⟨depth, .peek p, s⟩ :=
  (single_linked p s).mapState fun _ ht => ⟨_, ht, rfl⟩

theorem notFollowedBy (name : String) : Links bindings ⟨depth, .notFollowedBy p name, s⟩ := by
  rw [Links, outcome, Grammar.run]
  cases h : p.run (bindings.resolver depth) s.dropFailure with
  | ok x t => rw [Parser.notFollowedBy_ok h]; exact ⟨_, .single_ok h, rfl⟩
  | fail severity t => rw [Parser.notFollowedBy_fail h]; exact ⟨_, .single_fail h, rfl⟩
  | fault g => rw [Parser.notFollowedBy_fault h]; trivial

theorem many : Links bindings ⟨depth, .many p, s⟩ := by
  rw [Links, outcome, Grammar.run, Parser.many_apply]
  have hrounds : (Parser.iterate (p.run (bindings.resolver depth)) _ s).Ends _ :=
    iterate_linked p (s.input.length - s.index + 1) s
  exact Outcome.Ends.imp (hrounds.backTo fun _ ht => ht) fun t ht => ⟨_, ht, rfl⟩

theorem label (name : String) : Links bindings ⟨depth, .label name p, s⟩ := by
  rw [Links, outcome, Grammar.run]
  cases h : p.run (bindings.resolver depth) (s.dropFailure.note (.enter name)) with
  | ok x t => rw [Parser.label_ok h]; exact ⟨_, .single_ok h, rfl⟩
  | fail severity t =>
    by_cases hbeyond : t.failedBeyond s.index = true
    · rw [Parser.label_beyond h hbeyond]; exact ⟨_, .single_fail h, rfl⟩
    · rw [Parser.label_named h hbeyond]; exact ⟨_, .single_fail h, rfl⟩
  | fault g => rw [Parser.label_fault h]; trivial

/-- What is told of the value goes by how the application ends. -/
theorem traced (name : String) (render : α → String) :
    Links bindings ⟨depth, .traced name render p, s⟩ := by
  rw [Links, outcome, Grammar.run]
  cases h : p.run (bindings.resolver depth) (s.note (.enter name)) with
  | ok x t =>
    rw [Parser.traced_ok h]
    refine ⟨_, .single_ok h, ?_⟩
    simp only [closing, name?, result?, Grammar.run, Parser.traced_ok h]
    rfl
  | fail severity t =>
    rw [Parser.traced_fail h]
    refine ⟨_, .single_fail h, ?_⟩
    simp only [closing, name?, result?, Grammar.run, Parser.traced_fail h]
    rfl
  | fault g => rw [Parser.traced_fault h]; trivial

theorem spanned {p : Grammar S .text α} {s : State .text} (f : α → Nat → Nat → List Char → β) :
    Links bindings ⟨depth, .spanned f p, s⟩ := by
  rw [Links, outcome, Grammar.run]
  cases h : p.run (bindings.resolver depth) s with
  | ok x t =>
    cases hslice : t.slice? s.index t.index with
    | some text => rw [Parser.spanned_ok h hslice]; exact ⟨_, .single_ok h, rfl⟩
    | none => rw [Parser.spanned_out h hslice]; trivial
  | fail severity t => rw [Parser.spanned_fail h]; exact ⟨_, .single_fail h, rfl⟩
  | fault g => rw [Parser.spanned_fault h]; trivial

theorem ref (x : S.Ref) (s : State (S.alphabet x)) : Links bindings ⟨depth, .ref x, s⟩ := by
  rw [Links, outcome, Grammar.run]
  cases depth with
  | zero =>
    unfold Bindings.resolver
    cases bindings.lookup? x <;> trivial
  | succ depth =>
    unfold Bindings.resolver
    cases hx : bindings.lookup? x with
    | none => trivial
    | some g =>
      simp only [inner, hx]
      exact (single_linked g s).imp fun t ht => ⟨_, ht, rfl⟩

theorem staged {grammar : Grammar S .tokens α} {lexer : Grammar S .text (List Token)}
    {s : State .text} : Links bindings ⟨depth, .staged grammar lexer, s⟩ := by
  rw [Links, outcome, Grammar.run]
  cases h : lexer.run (bindings.resolver depth) s.dropFailure with
  | ok tokens t =>
    simp only [inner, h]
    cases h' : grammar.run (bindings.resolver depth) { input := tokens, events := t.events } with
    | ok x u =>
      rw [Parser.staged_ok_ok h h']
      exact ⟨_, .ok ⟨depth, lexer, s.dropFailure⟩ h (.single_ok h'), rfl⟩
    | fail severity u =>
      rw [Parser.staged_ok_fail h h']
      exact ⟨_, .ok ⟨depth, lexer, s.dropFailure⟩ h (.single_fail h'), rfl⟩
    | fault g => rw [Parser.staged_ok_fault h h']; trivial
  | fail severity t =>
    simp only [inner, h]
    rw [Parser.staged_fail h]
    exact ⟨_, .single_fail h, rfl⟩
  | fault g => rw [Parser.staged_fault h]; trivial

theorem terminal (lexicon : Lexicon) (words : Grammar S .text Unit) (s : State .text) :
    Links bindings ⟨depth, .terminal lexicon words, s⟩ := by
  rw [Links, outcome, Grammar.run]
  by_cases hout : s.input.length < s.index ∧ lexicon.operators ≠ []
  · rw [Parser.terminal_out hout.1 hout.2]; trivial
  · simp only [inner, if_neg hout]
    exact Outcome.Ends.imp (terminal_linked lexicon words s hout) fun t ht => ⟨_, ht, rfl⟩

end Links

/-- Applications of every kind do. -/
theorem inner_linked (app : Application S) : app.Links bindings := by
  obtain ⟨depth, g, s⟩ := app
  cases g with
  | pure value | refuse message | silent severity => exact ⟨_, .nil _, rfl⟩
  | item extract names => exact .item extract names
  | atEnd => exact .atEnd
  | scan matcher name => exact .scan matcher name
  | map f p => exact .map f
  | seqWith f p q => exact .seqWith f
  | orElse p q => exact .orElse
  | atomic p => exact .atomic
  | peek p => exact .peek
  | notFollowedBy p name => exact .notFollowedBy name
  | many p => exact .many
  | label name p => exact .label name
  | traced name render p => exact .traced name render
  | spanned f p => exact .spanned f
  | ref x => exact .ref x s
  | staged grammar lexer => exact .staged
  | terminal lexicon words => exact .terminal lexicon words s

/-! ## The events of a run -/

/-- Applications that take up the events from one another add those of their calls, if each of them
does. -/
theorem Linked.events_eq {earlier later : List Event} {apps : List (Application S)}
    (h : Linked bindings earlier apps later)
    (hadd : ∀ app ∈ apps, (app.outcome bindings).Ends fun t =>
      t.events = (Node.eventsOf (app.nodes bindings)).reverse ++ app.state.events) :
    later = (Node.eventsOf (apps.flatMap (nodes bindings))).reverse ++ earlier := by
  induction h with
  | nil events => rfl
  | ok app hout hrest ih | fail app hout hrest ih =>
    have hfirst := hadd app (.head _)
    rw [hout] at hfirst
    rw [ih fun next hnext => hadd next (.tail _ hnext), show _ = _ from hfirst,
      List.flatMap_cons, Node.eventsOf_append, List.reverse_append, List.append_assoc]

/-- An application that ends has added the events of its calls. The induction is on what is applied
inside it. -/
theorem events_outcome (app : Application S) : (app.outcome bindings).Ends fun t =>
    t.events = (Node.eventsOf (app.nodes bindings)).reverse ++ app.state.events := by
  induction app using (inner_wellFounded bindings).induction with
  | h app ih =>
  refine app.inner_linked.imp fun t ht => ?_
  obtain ⟨events, hlinked, hclosing⟩ := ht
  rw [hclosing, hlinked.events_eq ih, eventsOf_nodes, List.append_assoc, List.append_assoc]

/-- A tree that follows the events grows by the calls of an application that ends. -/
theorem tree_grows (app : Application S) (tree : Tree) : (app.outcome bindings).Ends fun t =>
    (tree.read app.state.journal).Grows (app.nodes bindings) (tree.read t.journal) := by
  refine app.events_outcome.imp fun t ht => ?_
  have hjournal : t.journal = app.state.journal ++ Node.eventsOf (app.nodes bindings) := by
    rw [State.journal, ht, List.reverse_append, List.reverse_reverse, State.journal]
  rw [hjournal, Tree.read_append, Tree.read_eventsOf]
  exact Tree.grows_hang _ _

/-- **Calls are balanced, and each has its own result.** Let a tree follow the events up to where a
grammar is applied, with any calls open. When the application ends, in whatever way, the same calls
are open with the same names and results, and nothing is new but whole calls inside the innermost of
them. These are the calls of the applications inside it, in order; if it is `traced`, one call around
those, with the text of its value if it has succeeded and with none if it has failed; if it is a
`label`, one call around those without a result. -/
theorem calls_balanced (bindings : Bindings S) (app : Application S) (tree : Tree) :
    (∀ x t, app.outcome bindings = .ok x t →
      (tree.read app.state.journal).Grows (app.nodes bindings) (tree.read t.journal)) ∧
    (∀ severity t, app.outcome bindings = .fail severity t →
      (tree.read app.state.journal).Grows (app.nodes bindings) (tree.read t.journal)) ∧
    (app.name? = none →
      app.nodes bindings = (app.inner bindings).flatMap (nodes bindings)) ∧
    (∀ name render p, app.grammar = .traced name render p →
      (∀ x t, app.outcome bindings = .ok x t → app.nodes bindings =
        [.mk name (some (render x)) ((app.inner bindings).flatMap (nodes bindings))]) ∧
      ∀ severity t, app.outcome bindings = .fail severity t → app.nodes bindings =
        [.mk name none ((app.inner bindings).flatMap (nodes bindings))]) ∧
    ∀ name p, app.grammar = .label name p → app.nodes bindings =
      [.mk name none ((app.inner bindings).flatMap (nodes bindings))] := by
  refine ⟨fun x t h => ?_, fun severity t h => ?_, fun hname => ?_,
    fun name render p hg => ⟨fun x t h => ?_, fun severity t h => ?_⟩, fun name p hg => ?_⟩
  · have hgrows : (app.outcome bindings).Ends _ := app.tree_grows tree
    rw [h] at hgrows
    exact hgrows
  · have hgrows : (app.outcome bindings).Ends _ := app.tree_grows tree
    rw [h] at hgrows
    exact hgrows
  · rw [nodes_eq, hname]
  · obtain ⟨depth, g, s⟩ := app
    dsimp only at render p x t hg
    subst hg
    rw [nodes_eq]
    simp only [outcome] at h
    simp only [name?, result?, h]
  · obtain ⟨depth, g, s⟩ := app
    dsimp only at render p t hg
    subst hg
    rw [nodes_eq]
    simp only [outcome] at h
    simp only [name?, result?, h]
  · obtain ⟨depth, g, s⟩ := app
    dsimp only at p hg
    subst hg
    rw [nodes_eq]
    rfl

section

/-- Two letters under a name each, and under one name together. -/
def namedLetters : Grammar nestingScope .text (Char × Char) :=
  .traced "both" (fun letters => String.ofList [letters.1, letters.2])
    (.seq (.label "first" (.char 'a')) (.label "second" (.char 'b')))

/-- `namedLetters` at work on its own text. -/
def readingLetters : Application nestingScope :=
  ⟨0, namedLetters, { input := ['a', 'b'] }⟩

/-- A call that is open, with one inside it that is done. -/
def openCall : Tree :=
  { openNodes := [.mk "all" none [.mk "before" none []]] }

/-- One call with its value comes after the one inside the open call, and has two of its own. -/
theorem readingLetters_balanced :
    ∃ t, readingLetters.outcome [] = .ok ('a', 'b') t ∧
      openCall.Grows (readingLetters.nodes []) (openCall.read t.journal) ∧
      readingLetters.nodes [] =
        [.mk "both" (some "ab") ((readingLetters.inner []).flatMap (nodes []))] ∧
      openCall.read t.journal = { openNodes := [.mk "all" none [.mk "before" none [],
        .mk "both" (some "ab") [.mk "first" none [], .mk "second" none []]]] } := by
  obtain ⟨hok, -, -, htraced, -⟩ := calls_balanced [] readingLetters openCall
  obtain ⟨hvalue, -⟩ := htraced _ _ _ rfl
  exact ⟨_, rfl, hok _ _ rfl, hvalue _ _ rfl, rfl⟩

end

end Application

end Descent
