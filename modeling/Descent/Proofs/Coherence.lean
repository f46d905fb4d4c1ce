import Descent.Proofs.Application
import Descent.Proofs.Contract
import Descent.Proofs.Recorded

/-!
What is said of a failure is true of the source.

A failure is coherent with its input (`Failure.Coherent`) if it lies within it, expects no name
twice, and encounters the end just where the input ends and otherwise what begins at its place. That
is a law of failures (`Failure.law_coherent`), so runs keep it. A state is coherent with a source if
its input is read off the source and its failure is coherent with its input; an application that
starts in such a state passes it on to those inside it (`Application.Sound.inner`), and so it holds
wherever a run comes through (`Rules.reaches_coherent`).
-/

namespace Descent

/-! ## What stands at a place -/

/-- What begins at an index of an input: a text that is not empty, or the text of a unit. -/
def Alphabet.StandsAt : (a : Alphabet) → List a.Item → Nat → String → Prop
  | text, input, index, found => found ≠ "" ∧ found.toList <+: input.drop index
  | tokens, input, index, found => ∃ token, input[index]? = some token ∧ found = token.text
  | words, input, index, found => input[index]? = some found

/-- An input that is read off a source: the source itself, or tokens that are pieces of it. -/
def Alphabet.ReadOff (source : List Char) : (a : Alphabet) → List a.Item → Prop
  | text, input => input = source
  | tokens, input => ∀ token ∈ input, token.IsPieceOf source
  | words, _ => False

/-- A failure that says of an input what is so. -/
structure Failure.Coherent {a : Alphabet} (input : List a.Item) (failure : Failure) : Prop where
  position_le : failure.position ≤ input.length
  nodup : failure.expected.Nodup
  endOfInput_iff : failure.encountered = .endOfInput ↔ failure.position = input.length
  standsAt : ∀ words, failure.encountered = .unit words → a.StandsAt input failure.position words

/-- A state whose input is read off a source and whose failure is coherent with its input. -/
structure State.Coherent {a : Alphabet} (source : List Char) (s : State a) : Prop where
  readOff : a.ReadOff source s.input
  index_le : s.index ≤ s.input.length
  failure : ∀ f, s.failure = some f → f.Coherent s.input

variable {a : Alphabet}

theorem Alphabet.standsAt_next {input : List a.Item} {index : Nat} {unit : a.Item}
    (h : input[index]? = some unit) : a.StandsAt input index (a.describe unit) := by
  cases a with
  | text =>
    have hdrop : input.drop index = unit :: input.drop (index + 1) := by
      obtain ⟨hlt, rfl⟩ := List.getElem?_eq_some_iff.mp h
      exact List.drop_eq_getElem_cons hlt
    refine ⟨by simp [describe, Char.toString], ?_⟩
    rw [hdrop]
    simp [describe, Char.toString]
  | tokens => exact ⟨unit, h, rfl⟩
  | words => exact h

/-- A token stands in the text where it starts. -/
theorem Token.IsPieceOf.standsAt {token : Token} {text : List Char} (h : token.IsPieceOf text) :
    Alphabet.text.StandsAt text token.start token.text := by
  constructor
  · intro hempty
    have hlength := congrArg List.length h.text_eq
    have hstart := h.start_lt_stop
    have hstop := h.stop_le
    rw [hempty, List.length_take, List.length_drop, String.toList_empty, List.length_nil] at hlength
    omega
  · rw [h.text_eq]
    exact List.take_prefix _ _

/-! ## The law -/

/-- What is found where a state has no next unit is the end, and nowhere else. -/
theorem State.encountered_eq_endOfInput {s : State a} (hs : s.index ≤ s.input.length) :
    s.encountered = .endOfInput ↔ s.index = s.input.length := by
  unfold State.encountered State.next?
  constructor
  · split
    · exact nofun
    · rename_i hnone
      exact fun _ => Nat.le_antisymm hs (List.getElem?_eq_none_iff.mp hnone)
  · intro hindex
    rw [List.getElem?_eq_none_iff.mpr (Nat.le_of_eq hindex.symm)]

theorem State.standsAt_encountered {s : State a} {words : String}
    (h : s.encountered = .unit words) : a.StandsAt s.input s.index words := by
  unfold State.encountered State.next? at h
  split at h
  · rename_i unit hunit
    cases h
    exact Alphabet.standsAt_next hunit
  · cases h

/-- Failures that are recorded are coherent, and stay so when they are united and when they are moved
to the text. Of two that are united the first tells what was encountered, and both are at one
place. -/
theorem Failure.law_coherent : Failure.Law fun _ input f => f.Coherent input where
  recorded s names message hs :=
    ⟨hs, nodup_addNames names .nil, State.encountered_eq_endOfInput hs,
      fun _ hwords => State.standsAt_encountered hwords⟩
  merge _ hfirst _ := { hfirst with nodup := nodup_addNames _ hfirst.nodup }
  toSource {text tokens stopped failure} htokens hstopped h := by
    unfold Failure.toSource
    cases htoken : tokens[failure.position]? with
    | some token =>
      have hpiece := htokens token (List.mem_of_getElem? htoken)
      have hlt : token.start < text.length := Nat.lt_of_lt_of_le hpiece.start_lt_stop hpiece.stop_le
      refine ⟨Nat.le_of_lt hlt, h.nodup, ⟨nofun, fun hend => absurd hend (Nat.ne_of_lt hlt)⟩, ?_⟩
      rintro _ ⟨⟩
      exact hpiece.standsAt
    | none =>
      cases hnext : text[stopped]? with
      | some c =>
        refine ⟨hstopped, h.nodup, ⟨nofun, fun hend => ?_⟩, ?_⟩
        · exact absurd hnext (by simp [show stopped = text.length from hend])
        · rintro _ ⟨⟩
          exact Alphabet.standsAt_next (a := .text) hnext
      | none =>
        have hend : stopped = text.length :=
          Nat.le_antisymm hstopped (List.getElem?_eq_none_iff.mp hnext)
        exact ⟨hstopped, h.nodup, ⟨fun _ => hend, fun _ => rfl⟩, nofun⟩

/-! ## States on the way -/

namespace State.Coherent

variable {source : List Char} {s t : State a}

theorem lawful (h : s.Coherent source) :
    s.Lawful (fun _ input f => f.Coherent input) s.input :=
  ⟨rfl, h.index_le, h.failure⟩

theorem of_lawful {input : List a.Item} (hinput : a.ReadOff source input)
    (h : s.Lawful (fun _ input f => f.Coherent input) input) : s.Coherent source := by
  obtain ⟨rfl, hindex, hfailure⟩ := h
  exact ⟨hinput, hindex, hfailure⟩

/-- A run begins with nothing on record. -/
theorem start {input : List a.Item} (hinput : a.ReadOff source input)
    (events : List Trace.Event) : State.Coherent source { input, events } :=
  ⟨hinput, Nat.zero_le _, nofun⟩

/-- The mark and the events do not matter. -/
theorem congr (h : s.Coherent source) (hinput : t.input = s.input) (hindex : t.index = s.index)
    (hfailure : t.failure = s.failure) : t.Coherent source :=
  .of_lawful h.readOff (h.lawful.congr hinput hindex hfailure)

theorem dropFailure (h : s.Coherent source) : s.dropFailure.Coherent source :=
  ⟨h.readOff, h.index_le, nofun⟩

end State.Coherent

namespace Application

variable {S : Scope} {bindings : Bindings S} {source : List Char} {app inside : Application S}

/-- An application of what the library builds, in a state that is coherent with a source. -/
structure Sound (bindings : Bindings S) (source : List Char) (app : Application S) : Prop where
  lexes : app.grammar.Throughout bindings fun part => part.grammar.LexesProperly
  state : app.state.Coherent source

namespace Sound

/-- A sound application ends in a coherent state. -/
theorem ends (h : app.Sound bindings source) :
    (app.outcome bindings).Ends (State.Coherent source) := by
  have hlawful : ((⟨bindings, app.depth⟩ : Rules S).parser app.grammar).Lawful
      fun _ input f => f.Coherent input :=
    Rules.parser_lawful Failure.law_coherent h.lexes
  have hend : (app.outcome bindings).Ends (State.Lawful _ app.state.input) :=
    hlawful app.state.input app.state h.state.lawful
  cases hout : app.outcome bindings with
  | ok x t => rw [hout] at hend; exact .of_lawful h.state.readOff hend
  | fail severity t => rw [hout] at hend; exact .of_lawful h.state.readOff hend
  | fault f => trivial

theorem ok (h : app.Sound bindings source) {x : app.Value} {t : State app.alphabet}
    (hout : app.outcome bindings = .ok x t) : t.Coherent source :=
  h.ends.of_ok hout

theorem fail (h : app.Sound bindings source) {severity : Severity} {t : State app.alphabet}
    (hout : app.outcome bindings = .fail severity t) : t.Coherent source :=
  h.ends.of_fail hout

/-- What is applied inside a sound application is sound: it starts where that one does, or where
another one inside it has ended. -/
theorem inner (h : app.Sound bindings source) (hinside : inside ∈ app.inner bindings) :
    inside.Sound bindings source := by
  obtain ⟨depth, g, s⟩ := app
  obtain ⟨hg, hs⟩ := h
  cases g with
  | map f p | peek p | spanned f p =>
    rw [List.mem_singleton.mp hinside]
    exact ⟨hg.operand (.head _), hs⟩
  | atomic p | traced name render p =>
    rw [List.mem_singleton.mp hinside]
    exact ⟨hg.operand (.head _), hs.congr rfl rfl rfl⟩
  | notFollowedBy p name =>
    rw [List.mem_singleton.mp hinside]
    exact ⟨hg.operand (.head _), hs.dropFailure⟩
  | label name p =>
    rw [List.mem_singleton.mp hinside]
    exact ⟨hg.operand (.head _), hs.dropFailure.congr rfl rfl rfl⟩
  | seqWith f p q =>
    have hfirst : Sound bindings source ⟨depth, p, s⟩ := ⟨hg.operand (.head _), hs⟩
    rcases mem_inner_seqWith.mp hinside with rfl | ⟨x, t, hrun, rfl⟩
    · exact hfirst
    · exact ⟨hg.operand (.tail _ (.head _)), hfirst.ok hrun⟩
  | orElse p q =>
    have hfirst : Sound bindings source ⟨depth, p, s⟩ := ⟨hg.operand (.head _), hs⟩
    rcases mem_inner_orElse.mp hinside with rfl | ⟨t, hrun, rfl⟩
    · exact hfirst
    · have hplace := (Rules.parser_backtracks ⟨bindings, depth⟩ p).fail hrun
      exact ⟨hg.operand (.tail _ (.head _)), (hfirst.fail hrun).congr rfl hplace.2.symm rfl⟩
  | many p =>
    obtain ⟨t, ht, rfl⟩ := mem_inner_many.mp hinside
    have hround : ∀ u x v, u.Coherent source → p.run (bindings.resolver depth) u = .ok x v →
        v.Coherent source := by
      intro u x v hu hrun
      have hsound : Sound bindings source ⟨depth, p, u⟩ := ⟨hg.operand (.head _), hu⟩
      exact hsound.ok hrun
    exact ⟨hg.operand (.head _), Parser.rounds_induction hround _ hs t ht⟩
  | ref x =>
    obtain ⟨shallower, g, rfl, hx, rfl⟩ := mem_inner_ref.mp hinside
    exact ⟨hg.target hx, hs⟩
  | staged grammar lexer =>
    have hlexer : Sound bindings source ⟨depth, lexer, s.dropFailure⟩ :=
      ⟨hg.operand (.tail _ (.head _)), hs.dropFailure⟩
    obtain ⟨g, tokenizer, delimiter, -, rfl, htokenizer⟩ := hg.self
    rcases mem_inner_staged.mp hinside with rfl | ⟨tokens, t, hrun, rfl⟩
    · exact hlexer
    · have htiles := Rules.tiles_of_lexer_ok ⟨bindings, depth⟩ htokenizer delimiter
        hs.dropFailure.index_le hrun
      exact ⟨hg.operand (.head _),
        .start (a := .tokens) (hs.readOff ▸ htiles.pieces) t.events⟩
  | terminal lexicon words =>
    obtain ⟨-, rfl⟩ := mem_inner_terminal.mp hinside
    exact ⟨hg.operand (.head _), hs.dropFailure⟩
  | _ => cases hinside

/-- Wherever a run comes through from a sound application, it is sound. -/
theorem reaches (h : app.Sound bindings source) (hreaches : app.Reaches bindings inside) :
    inside.Sound bindings source := by
  induction hreaches with
  | refl => exact h
  | tail _ hinside ih => exact ih.inner hinside

end Sound

end Application

/-- **Diagnostics are coherent with the source.** In a run of a grammar from the beginning of a text,
whatever is applied on the way starts and ends in a coherent state, also if the run is at fault in
the end. So a failure on record never lies past the end of the input, expects no name twice, and
encounters the end of the input just if it lies there; otherwise it encounters what stands at its
place, a part of the source that is not empty. Among the tokens that a lexer has found, that is the
text of a token, which stands in the source where the token starts. -/
theorem Rules.reaches_coherent {S : Scope} {α : Type} (rules : Rules S) (g : Grammar S .text α)
    (hg : g.Throughout rules.bindings fun part => part.grammar.LexesProperly) (source : List Char)
    (app : Application S)
    (happ : Application.Reaches rules.bindings ⟨rules.depth, g, { input := source }⟩ app) :
    app.state.Coherent source ∧
    (∀ x t, app.outcome rules.bindings = .ok x t → t.Coherent source) ∧
    ∀ severity t, app.outcome rules.bindings = .fail severity t → t.Coherent source := by
  have hstart : Application.Sound rules.bindings source ⟨rules.depth, g, { input := source }⟩ :=
    ⟨hg, .start (a := .text) rfl []⟩
  have hsound := hstart.reaches happ
  exact ⟨hsound.state, fun _ _ => hsound.ok, fun _ _ => hsound.fail⟩

section

/-- Parentheses that are not closed where no token begins. -/
def unclosedText : List Char :=
  ['(', '(', 'a', ' ', '?']

/-- `nestedText` at work on `unclosedText`. -/
def unclosedParsing : Application nestingScope :=
  ⟨nestingRules.depth, nestedText, { input := unclosedText }⟩

/-- The lexer inside it. -/
def unclosedLexing : Application nestingScope :=
  ⟨nestingRules.depth, .lexer parentheses.tokenizer .blanks, { input := unclosedText }⟩

/-- The parenthesis is missed at the question mark, where lexing has stopped after three tokens. -/
theorem nestedText_coherent :
    (nestedText.Throughout nestingRules.bindings fun part => part.grammar.LexesProperly) ∧
    unclosedParsing.Reaches nestingRules.bindings unclosedLexing ∧
    (∀ tokens t, unclosedLexing.outcome nestingRules.bindings = .ok tokens t →
      t.Coherent unclosedText) ∧
    ∃ t, unclosedParsing.outcome nestingRules.bindings = .fail .recoverable t ∧
      t.failure = some ⟨4, [")"], none, .unit "?"⟩ ∧ t.Coherent unclosedText := by
  have hlexes : nestedText.Throughout nestingRules.bindings
      fun part => part.grammar.LexesProperly :=
    fun part hpart => (nestedText_accountable part hpart).1.lexesProperly
  have hlexing : unclosedParsing.Reaches nestingRules.bindings unclosedLexing :=
    .single (.head _)
  have hreason : (nestingRules.parser nestedText { input := unclosedText }).reason? =
      some ⟨4, [")"], none, .unit "?"⟩ := by decide +kernel
  obtain ⟨t, ht⟩ := Outcome.exists_of_reason? hreason
  obtain ⟨-, hlexed, -⟩ :=
    Rules.reaches_coherent nestingRules nestedText hlexes unclosedText unclosedLexing hlexing
  obtain ⟨-, -, hfail⟩ :=
    Rules.reaches_coherent nestingRules nestedText hlexes unclosedText unclosedParsing .refl
  rw [ht] at hreason
  exact ⟨hlexes, hlexing, hlexed, t, ht, hreason, hfail _ t ht⟩

end

end Descent
