import Descent.Grammar.Parse
import Descent.Proofs.Pruning
import Descent.Proofs.Tiling

/-!
A parse that fails has a failure on record.

Failures are put away in four places, and in three of them another one is recorded before the parser
fails: names, lookahead, and the look for a word. The fourth is the lexer of two stages. It fails
only when it is committed, and then nothing is left of its failure; but where no lexer can commit
(`Grammar.SpeaksUp`) every failed parse tells why it failed (`Rules.failed_parse_recorded`). A
delimiter that commits shows that this has to be asked (`slashed_unrecorded`).
-/

namespace Descent

/-- Any failure of a run within its input is to have a reason. -/
def Demand.ofAny : Demand where
  asks s _ i := s.index ≤ s.input.length ∧ i = 0
  le_index h := h.2 ▸ Nat.zero_le _
  follows hst h := ⟨hst.within h.1, h.2⟩
  recoverable h := h
  tokens _ _ _ := ⟨Nat.zero_le _, rfl⟩

/-! ## Grammars -/

variable {S : Scope} {a : Alphabet} {α : Type}

namespace Grammar

/-- If the outermost part reads tokens, a lexer of the library finds them, and it never commits. -/
def LexesFreely (bindings : Bindings S) : {a : Alphabet} → {α : Type} → Grammar S a α → Prop
  | _, _, staged _ found => (∃ tokenizer delimiter, found = lexer tokenizer delimiter) ∧
      ∀ depth s t, s.index ≤ s.input.length →
        found.run (bindings.resolver depth) s ≠ .fail .committed t
  | _, _, _ => True

theorem LexesFreely.of_ne_text {bindings : Bindings S} (ha : a ≠ .text) (g : Grammar S a α) :
    g.LexesFreely bindings := by
  cases g with
  | staged => exact absurd rfl ha
  | _ => trivial

/-- Nothing in a grammar fails without a word, and no lexer in it commits. -/
def SpeaksUp (bindings : Bindings S) (g : Grammar S a α) : Prop :=
  g.Throughout bindings fun part => part.grammar.Vocal ∧ part.grammar.LexesFreely bindings

/-- A lexer of the library can only fail by committing. -/
theorem LexesFreely.lexesFor {bindings : Bindings S} {g : Grammar S a α}
    (hg : g.LexesFreely bindings) : g.LexesFor .ofAny bindings := by
  cases g with
  | staged grammar found =>
    obtain ⟨⟨tokenizer, delimiter, rfl⟩, hcommitted⟩ := hg
    rintro depth s severity _ ⟨hs, rfl⟩
    refine ⟨fun t h => ?_, fun _ _ _ _ _ => Nat.zero_le _⟩
    cases severity with
    | recoverable => exact lexer_ne_recoverable tokenizer delimiter s t h
    | committed => exact hcommitted depth s t hs h
  | _ => trivial

/-- Lexers are only in grammars of text. -/
theorem SpeaksUp.of_vocal {bindings : Bindings S} {g : Grammar S a α} (ha : a ≠ .text)
    (hg : g.Throughout bindings fun part => part.grammar.Vocal) : g.SpeaksUp bindings := by
  have hfree : g.Throughout bindings fun part => part.grammar.LexesFreely bindings :=
    throughout_of_ne_text ha fun part h => .of_ne_text h part.grammar
  exact fun part hpart => ⟨hg part hpart, hfree part hpart⟩

theorem SpeaksUp.whole {bindings : Bindings S} {g : Grammar S a α} (hg : g.SpeaksUp bindings) :
    g.whole.SpeaksUp bindings :=
  .binary ⟨trivial, trivial⟩ rfl hg (.leaf ⟨trivial, trivial⟩ rfl)

end Grammar

/-! ## Whole parses -/

theorem Rules.exists_failure {rules : Rules S} {g : Grammar S a α} (hg : g.SpeaksUp rules.bindings)
    {input : List a.Item} {severity : Severity} {t : State a}
    (h : rules.parser g { input } = .fail severity t) :
    ∃ failure, t.failure = some failure := by
  have hmeets : (rules.parser g).Meets .ofAny :=
    Rules.parser_meets fun part hpart => ⟨(hg part hpart).1, (hg part hpart).2.lexesFor⟩
  obtain ⟨failure, hfailure, -⟩ := hmeets { input } severity t 0 ⟨Nat.zero_le _, rfl⟩ h
  exact ⟨failure, hfailure⟩

/-- The error is the failure that the run of a grammar over a text left on record. -/
def Rules.LeftOnRecord (rules : Rules S) (g : Grammar S .text α) (source : String)
    (error : ParseError) : Prop :=
  ∃ severity t failure, rules.parser g { input := source.toList } = .fail severity t ∧
    t.failure = some failure ∧ error = .locate failure (.ofText source.toList)

namespace Grammar

variable {rules : Rules S}

theorem exists_of_parseInput_error {g : Grammar S a α} (hg : g.SpeaksUp rules.bindings)
    {input : List a.Item} {failure : Failure}
    (h : parseInput rules g input = .ok (.error failure)) :
    ∃ severity t, rules.parser (whole g) { input } = .fail severity t ∧
      t.failure = some failure := by
  cases hrun : rules.parser (whole g) { input } with
  | ok x t => rw [parseInput_of_ok hrun] at h; cases h
  | fail severity t =>
    obtain ⟨recorded, hrecorded⟩ := Rules.exists_failure hg.whole hrun
    rw [parseInput_of_fail hrun, hrecorded] at h
    cases h
    exact ⟨severity, t, rfl, hrecorded⟩
  | fault f => rw [parseInput_of_fault hrun] at h; cases h

theorem leftOnRecord_of_parse_error {g : Grammar S .text α} (hg : g.SpeaksUp rules.bindings)
    {source : String} {error : ParseError} (h : parse rules g source = .ok (.error error)) :
    rules.LeftOnRecord (whole g) source error := by
  cases hrun : rules.parser (whole g) { input := source.toList } with
  | ok x t => rw [parse_of_ok hrun] at h; cases h
  | fail severity t =>
    obtain ⟨failure, hfailure⟩ := Rules.exists_failure hg.whole hrun
    rw [parse_of_fail hrun, hfailure] at h
    cases h
    exact ⟨severity, t, failure, hrun, hfailure, rfl⟩
  | fault f => rw [parse_of_fault hrun] at h; cases h

theorem leftOnRecord_of_parsePrefix_error {g : Grammar S .text α}
    (hg : g.SpeaksUp rules.bindings) {source : String} {error : ParseError}
    (h : parsePrefix rules g source = .ok (.error error)) :
    rules.LeftOnRecord g source error := by
  cases hrun : rules.parser g { input := source.toList } with
  | ok x t => rw [parsePrefix_of_ok hrun] at h; cases h
  | fail severity t =>
    obtain ⟨failure, hfailure⟩ := Rules.exists_failure hg hrun
    rw [parsePrefix_of_fail hrun, hfailure] at h
    cases h
    exact ⟨severity, t, failure, hrun, hfailure, rfl⟩
  | fault f => rw [parsePrefix_of_fault hrun] at h; cases h

/-- Over tokenizers of the library it is enough that the delimiter does not commit. -/
theorem lexesFreely_of_delimiter {bindings : Bindings S} {grammar : Grammar S .tokens α}
    {tokenizer : Grammar S .text Token} (htokenizer : tokenizer.IsTokenizer)
    {delimiter : Grammar S .text Unit}
    (hdelimiter : ∀ depth s t, delimiter.run (bindings.resolver depth) s ≠ .fail .committed t) :
    (staged grammar (lexer tokenizer delimiter)).LexesFreely bindings := by
  refine ⟨⟨tokenizer, delimiter, rfl⟩, fun depth s t hs h => ?_⟩
  obtain ⟨i, -, -, u, hu⟩ :=
    (⟨bindings, depth⟩ : Rules S).commits_of_lexer_fail htokenizer delimiter hs h
  exact hdelimiter depth _ u hu

end Grammar

/-- **A failed parse has a failure on record**, committed or not, if nothing in the grammar fails
without a word and no lexer in it commits. What is said of the input is that failure, and so the
place and the words of an error are those of that failure. -/
theorem Rules.failed_parse_recorded (rules : Rules S) :
    (∀ {a : Alphabet} {α : Type} (g : Grammar S a α), g.SpeaksUp rules.bindings →
      ∀ input failure, g.parseInput rules input = .ok (.error failure) →
        ∃ severity t, rules.parser (.whole g) { input } = .fail severity t ∧
          t.failure = some failure) ∧
    ∀ {α : Type} (g : Grammar S .text α), g.SpeaksUp rules.bindings → ∀ source error,
      (g.parse rules source = .ok (.error error) →
        rules.LeftOnRecord (.whole g) source error) ∧
      (g.parsePrefix rules source = .ok (.error error) → rules.LeftOnRecord g source error) :=
  ⟨fun _ hg _ _ => Grammar.exists_of_parseInput_error hg,
    fun _ hg _ _ => ⟨Grammar.leftOnRecord_of_parse_error hg,
      Grammar.leftOnRecord_of_parsePrefix_error hg⟩⟩

section

/-- Why an input was refused. -/
def refusal? {ε : Type} : Except Fault (Except ε α) → Option ε
  | .ok (.error e) => some e
  | _ => none

theorem eq_of_refusal? {ε : Type} {e : ε} {result : Except Fault (Except ε α)}
    (h : refusal? result = some e) : result = .ok (.error e) := by
  unfold refusal? at h
  split at h
  · cases h; rfl
  · cases h

theorem blanks_run_ne_committed (depth : Nat) (s t : State .text) :
    (Grammar.blanks (S := nestingScope)).run (nestingRules.bindings.resolver depth) s ≠
      .fail .committed t := by
  intro h
  have hscan : Parser.scan _ _ s = .fail .committed t := h
  unfold Parser.scan at hscan
  split at hscan
  · split at hscan <;> cases hscan
  · cases hscan

/-- Blanks do not commit, so neither does the lexer. -/
theorem nestedText_speaksUp : nestedText.SpeaksUp nestingRules.bindings := by
  have hblanks : (Grammar.optional (.blanks (S := nestingScope))).Throughout
      nestingRules.bindings fun part => part.grammar.LexesFreely nestingRules.bindings :=
    .binary trivial rfl (.unary trivial rfl (.leaf trivial rfl)) (.leaf trivial rfl)
  have hfree : nestedText.Throughout nestingRules.bindings
      fun part => part.grammar.LexesFreely nestingRules.bindings :=
    .binary (Grammar.lexesFreely_of_delimiter (.registry _) blanks_run_ne_committed) rfl
      (Grammar.throughout_of_ne_text nofun fun part h => .of_ne_text h part.grammar)
      (.binary trivial rfl hblanks
        (.unary trivial rfl (.binary trivial rfl
          (.unary trivial rfl (.leaf trivial rfl)) hblanks)))
  exact fun part hpart => ⟨(nestedText_accountable part hpart).2, hfree part hpart⟩

/-- An unclosed text is refused for the reason on record, past its last token. -/
theorem nestedText_failure_recorded :
    nestedText.SpeaksUp nestingRules.bindings ∧
    nestedText.parse nestingRules "((a " =
      .ok (.error ⟨⟨1, 5⟩, ") expected, EOF encountered."⟩) ∧
    nestingRules.LeftOnRecord (.whole nestedText) "((a "
      ⟨⟨1, 5⟩, ") expected, EOF encountered."⟩ := by
  have herror : nestedText.parse nestingRules "((a " =
      .ok (.error ⟨⟨1, 5⟩, ") expected, EOF encountered."⟩) :=
    eq_of_refusal? (by decide +kernel)
  exact ⟨nestedText_speaksUp, herror,
    ((nestingRules.failed_parse_recorded.2 nestedText nestedText_speaksUp _ _).1 herror)⟩

/-! ## A lexer that commits -/

/-- A run that commits and leaves no failure. -/
def Outcome.unrecorded : Outcome a α → Bool
  | fail .committed t => t.failure.isNone
  | _ => false

theorem Outcome.exists_of_unrecorded {outcome : Outcome a α} (h : outcome.unrecorded = true) :
    ∃ t, outcome = .fail .committed t ∧ t.failure = none := by
  unfold unrecorded at h
  split at h
  · exact ⟨_, rfl, Option.isNone_iff_eq_none.mp h⟩
  · cases h

/-- Two slashes; after the first there must be the second. -/
def slashes : Grammar closedScope .text Unit :=
  .map (fun _ => ()) (.atomic (.skipThen (letter '/') (letter '/')))

/-- Any tokens, which are names between slashes. -/
def slashed : Grammar closedScope .text (List Token) :=
  .overTokens (.many .anyUnit) .identifierTokenizer slashes

/-- One slash commits the lexer, and the parse fails without a failure on record: it is refused for no
reason at its end, though what is missing is the second slash. -/
theorem slashed_unrecorded :
    (slashed.Throughout closedRules.bindings fun part => part.grammar.Accountable) ∧
    slashed.parse closedRules "/x" = .ok (.error ⟨⟨1, 3⟩, "parse failed"⟩) ∧
    ∃ t, closedRules.parser (.whole slashed) { input := "/x".toList } = .fail .committed t ∧
      t.failure = none := by
  have hslashes : (Grammar.optional slashes).Throughout closedRules.bindings
      fun part => part.grammar.Accountable :=
    .binary ⟨trivial, trivial⟩ rfl
      (.unary ⟨trivial, trivial⟩ rfl (.unary ⟨trivial, trivial⟩ rfl
        (.unary ⟨trivial, trivial⟩ rfl (.binary ⟨trivial, trivial⟩ rfl
          (.leaf ⟨trivial, trivial⟩ rfl) (.leaf ⟨trivial, trivial⟩ rfl)))))
      (.leaf ⟨trivial, trivial⟩ rfl)
  have hsilent : (closedRules.parser (.whole slashed) { input := "/x".toList }).unrecorded =
      true := by
    decide +kernel
  refine ⟨?_, eq_of_refusal? (by decide +kernel), Outcome.exists_of_unrecorded hsilent⟩
  refine .binary ⟨⟨_, _, _, rfl, rfl, .literal '"' (.head _)⟩, trivial⟩ rfl ?_ ?_
  · exact .binary ⟨trivial, trivial⟩ rfl
      (.unary ⟨trivial, trivial⟩ rfl (.leaf ⟨trivial, trivial⟩ rfl))
      (.leaf ⟨trivial, trivial⟩ rfl)
  · refine .binary ⟨trivial, trivial⟩ rfl hslashes
      (.unary ⟨trivial, trivial⟩ rfl (.binary ⟨trivial, trivial⟩ rfl ?_ hslashes))
    exact .unary ⟨trivial, trivial⟩ rfl (.leaf ⟨.pattern _ .identifier, trivial⟩ rfl)

end

end Descent
