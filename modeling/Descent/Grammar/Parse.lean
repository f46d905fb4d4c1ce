import Descent.Grammar.Combinator
import Descent.Grammar.Rules
import Descent.ParseError
import Descent.Parser.Equations
import Descent.Trace.Recorder

/-!
Running a grammar over a whole input. A run can find the grammar at fault; otherwise it gives a value
or says what is wrong with the input. A text may be parsed in full or from its beginning, and in
full it may be watched.
-/

namespace Descent.Grammar

variable {S : Scope} {a : Alphabet} {α : Type}

/-- What is said of an input if no failure has been recorded. -/
def unexplained (length : Nat) : Failure :=
  { position := length, message := some "parse failed", encountered := .endOfInput }

/-- What is wrong with an input, given the furthest failure. -/
def failureOf (furthest : Option Failure) (length : Nat) : Failure :=
  furthest.getD (unexplained length)

/-- Parses all units of an input. -/
def parseInput (rules : Rules S) (grammar : Grammar S a α) (input : List a.Item) :
    Except Fault (Except Failure α) :=
  match rules.parser (whole grammar) { input } with
  | .ok value _ => .ok (.ok value)
  | .fail _ s => .ok (.error (failureOf s.failure input.length))
  | .fault f => .error f

/-- What a run over a text gives: a value and where it ended, or an error; and what happened to
named parsers. -/
structure Parsed (α : Type) where
  result : Except ParseError (α × Nat)
  events : List Trace.Event

/-- Runs a grammar from the beginning of a text. -/
def parseText (rules : Rules S) (grammar : Grammar S .text α) (text : List Char) :
    Except Fault (Parsed α) :=
  match rules.parser grammar { input := text } with
  | .ok value s => .ok ⟨.ok (value, s.index), s.journal⟩
  | .fail _ s =>
    let failure := failureOf s.failure text.length
    .ok ⟨.error (.locate failure (.ofText text)), s.journal⟩
  | .fault f => .error f

/-- The value of a run, wherever it ended. -/
def Parsed.value (parsed : Parsed α) : Except ParseError α :=
  parsed.result.map Prod.fst

/-- Parses a whole text. -/
def parse (rules : Rules S) (grammar : Grammar S .text α) (source : String) :
    Except Fault (Except ParseError α) :=
  (parseText rules (whole grammar) source.toList).map Parsed.value

/-- Parses the beginning of a text and says where it stopped. -/
def parsePrefix (rules : Rules S) (grammar : Grammar S .text α) (source : String) :
    Except Fault (Except ParseError (α × Nat)) :=
  (parseText rules grammar source.toList).map Parsed.result

/-- What a recorder makes of a run: the value or the error, the tree of calls, and the log. -/
structure Recorded (α : Type) where
  value : Except ParseError α
  nodes : List Trace.Node
  reports : List Report

/-- Parses a whole text under the eyes of a recorder. The log ends with a line for a failure. -/
def parseRecorded (recorder : Trace.Recorder) (rules : Rules S) (grammar : Grammar S .text α)
    (source : String) : Except Fault (Recorded α) :=
  (parseText rules (whole grammar) source.toList).map fun parsed =>
    let failed :=
      match parsed.result with
      | .ok _ => []
      | .error error => [error.report]
    { value := parsed.value
      nodes := recorder.nodes parsed.events
      reports := recorder.reports parsed.events ++ failed }

/-- Parses a whole text and tells which calls it made. -/
def parseTraced (rules : Rules S) (grammar : Grammar S .text α) (source : String) :
    Except Fault (Except ParseError α × List Trace.Node) :=
  (parseRecorded .tree rules grammar source).map fun run => (run.value, run.nodes)

/-- Parses a whole text and tells what is written to the log meanwhile. -/
def parseLogged (rules : Rules S) (grammar : Grammar S .text α) (source : String) :
    Except Fault (Except ParseError α × List Report) :=
  (parseRecorded .log rules grammar source).map fun run => (run.value, run.reports)

/-- Parses a whole text and follows its calls one event at a time. -/
def parseObserved (rules : Rules S) (grammar : Grammar S .text α) (source : String) :
    Except Fault (Except ParseError α × List Trace.Observation) :=
  (parseText rules (whole grammar) source.toList).map fun parsed =>
    (parsed.value, Trace.observe {} parsed.events)

/-! ## What a parse gives, by how the run ends -/

variable {rules : Rules S} {x : α} {severity : Severity} {f : Fault}

section

variable {g : Grammar S a α} {input : List a.Item} {t : State a}

theorem parseInput_of_ok (h : rules.parser (whole g) { input } = .ok x t) :
    parseInput rules g input = .ok (.ok x) := by
  simp only [parseInput, h]

theorem parseInput_of_fail (h : rules.parser (whole g) { input } = .fail severity t) :
    parseInput rules g input = .ok (.error (failureOf t.failure input.length)) := by
  simp only [parseInput, h]

theorem parseInput_of_fault (h : rules.parser (whole g) { input } = .fault f) :
    parseInput rules g input = .error f := by
  simp only [parseInput, h]

theorem exists_of_parseInput_ok (h : parseInput rules g input = .ok (.ok x)) :
    ∃ t, rules.parser (whole g) { input } = .ok x t := by
  cases hrun : rules.parser (whole g) { input } with
  | ok y t => rw [parseInput_of_ok hrun] at h; cases h; exact ⟨t, rfl⟩
  | fail severity t => rw [parseInput_of_fail hrun] at h; cases h
  | fault f => rw [parseInput_of_fault hrun] at h; cases h

theorem of_parseInput_fault (h : parseInput rules g input = .error f) :
    rules.parser (whole g) { input } = .fault f := by
  cases hrun : rules.parser (whole g) { input } with
  | ok y t => rw [parseInput_of_ok hrun] at h; cases h
  | fail severity t => rw [parseInput_of_fail hrun] at h; cases h
  | fault f => rw [parseInput_of_fault hrun] at h; cases h; rfl

end

variable {g : Grammar S .text α} {source : String} {t : State .text}

theorem parse_of_ok (h : rules.parser (whole g) { input := source.toList } = .ok x t) :
    parse rules g source = .ok (.ok x) := by
  simp only [parse, parseText, h]
  rfl

theorem parse_of_fail
    (h : rules.parser (whole g) { input := source.toList } = .fail severity t) :
    parse rules g source =
      .ok (.error (.locate (failureOf t.failure source.toList.length) (.ofText source.toList))) := by
  simp only [parse, parseText, h]
  rfl

theorem parse_of_fault (h : rules.parser (whole g) { input := source.toList } = .fault f) :
    parse rules g source = .error f := by
  simp only [parse, parseText, h]
  rfl

theorem parsePrefix_of_ok (h : rules.parser g { input := source.toList } = .ok x t) :
    parsePrefix rules g source = .ok (.ok (x, t.index)) := by
  simp only [parsePrefix, parseText, h]
  rfl

theorem parsePrefix_of_fail (h : rules.parser g { input := source.toList } = .fail severity t) :
    parsePrefix rules g source =
      .ok (.error (.locate (failureOf t.failure source.toList.length) (.ofText source.toList))) := by
  simp only [parsePrefix, parseText, h]
  rfl

theorem parsePrefix_of_fault (h : rules.parser g { input := source.toList } = .fault f) :
    parsePrefix rules g source = .error f := by
  simp only [parsePrefix, parseText, h]
  rfl

theorem exists_of_parsePrefix_ok {n : Nat} (h : parsePrefix rules g source = .ok (.ok (x, n))) :
    ∃ t, rules.parser g { input := source.toList } = .ok x t ∧ t.index = n := by
  cases hrun : rules.parser g { input := source.toList } with
  | ok y t => rw [parsePrefix_of_ok hrun] at h; cases h; exact ⟨t, rfl, rfl⟩
  | fail severity t => rw [parsePrefix_of_fail hrun] at h; cases h
  | fault f => rw [parsePrefix_of_fault hrun] at h; cases h

end Descent.Grammar

namespace Descent

/-! ## A grammar and the end of the input -/

namespace Rules

variable {S : Scope} {a : Alphabet} {α : Type} {rules : Rules S} {g : Grammar S a α}
  {s t : State a} {x : α}

theorem whole_of_ended (h : rules.parser g s = .ok x t) (ht : ¬ t.index < t.input.length) :
    rules.parser (.whole g) s = .ok x t := by
  have hnext : ¬ t.hasNext = true := mt t.hasNext_iff.mp ht
  exact Parser.seqWith_ok_ok h (if_neg hnext)

theorem whole_of_goesOn (h : rules.parser g s = .ok x t) (ht : t.index < t.input.length) :
    rules.parser (.whole g) s = .fail .recoverable ((t.expect ["EOF"]).restore s.index) :=
  Parser.seqWith_ok_fail h (if_pos (t.hasNext_iff.mpr ht))

theorem whole_of_fail {severity : Severity} (h : rules.parser g s = .fail severity t) :
    rules.parser (.whole g) s = .fail severity (t.restore s.index) :=
  Parser.seqWith_fail h

theorem whole_of_fault {f : Fault} (h : rules.parser g s = .fault f) :
    rules.parser (.whole g) s = .fault f :=
  Parser.seqWith_fault h

end Rules

end Descent
