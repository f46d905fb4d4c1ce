import Descent.Proofs.Entry
import Descent.Proofs.Recorded

/-!
Two stages are one after the other.

A grammar of tokens over the tokens of a text gives what it gives over those tokens as a list. What it
refuses at a token is refused at the start of that token; what it refuses past the last one is
refused where the lexer stopped (`Failure.MovesTo`), and there the text is also refused if it goes on
(`Rules.parse_overTokens`). None of this depends on what failed while tokens were looked for.
-/

namespace Descent

/-! ## From tokens to the text -/

/-- What becomes of a failure among tokens in the text: it names and says the same at the start of
its token, or past the last token where the lexer stopped, and it encounters what is there. -/
inductive Failure.MovesTo (f : Failure) (tokens : List Token) (text : List Char) (stopped : Nat) :
    Failure → Prop where
  | token {token : Token} (h : tokens[f.position]? = some token) :
      MovesTo f tokens text stopped ⟨token.start, f.expected, f.message, .unit token.text⟩
  | character {c : Char} (past : f.position = tokens.length) (h : text[stopped]? = some c) :
      MovesTo f tokens text stopped ⟨stopped, f.expected, f.message, .unit c.toString⟩
  | endOfInput (past : f.position = tokens.length) (h : stopped = text.length) :
      MovesTo f tokens text stopped ⟨stopped, f.expected, f.message, .endOfInput⟩

theorem Failure.movesTo_toSource {f : Failure} {tokens : List Token} {text : List Char}
    {stopped : Nat} (hposition : f.position ≤ tokens.length) (hstopped : stopped ≤ text.length) :
    f.MovesTo tokens text stopped (f.toSource tokens text stopped) := by
  unfold toSource
  split
  · rename_i token htoken
    exact .token htoken
  · rename_i hpast
    have hlast : f.position = tokens.length :=
      Nat.le_antisymm hposition (List.getElem?_eq_none_iff.mp hpast)
    split
    · rename_i c hc
      exact .character hlast hc
    · rename_i hend
      exact .endOfInput hlast (Nat.le_antisymm hstopped (List.getElem?_eq_none_iff.mp hend))

/-! ## The lexer and then the grammar -/

variable {S : Scope} {α : Type}

namespace Rules

variable {rules : Rules S} {g : Grammar S .tokens α} {tokenizer : Grammar S .text Token}
  {delimiter : Grammar S .text Unit} {source : String} {tokens : List Token} {n : Nat}

/-- The events that the lexer leaves behind do not change what the grammar does. -/
theorem parser_after_events (rules : Rules S) (g : Grammar S .tokens α) (tokens : List Token)
    (events : List Trace.Event) :
    rules.parser g { input := tokens, events } =
      (rules.parser g { input := tokens }).mapState (·.withPast { events }) :=
  rules.parser_withPast g { input := tokens } { events }

section

variable (hlexer : (Grammar.lexer tokenizer delimiter).parsePrefix rules source =
  .ok (.ok (tokens, n)))

include hlexer

theorem exists_of_lexer_ok :
    ∃ t, rules.parser (.lexer tokenizer delimiter) { input := source.toList } = .ok tokens t ∧
      t.input = source.toList ∧ t.index = n := by
  obtain ⟨t, ht, hstop⟩ := Grammar.exists_of_parsePrefix_ok hlexer
  have hend := (rules.parser_backtracks (.lexer tokenizer delimiter)).ok ht
  exact ⟨t, ht, hend.input, hstop⟩

/-- A lexer stops within the text, and no token starts past where it stops. -/
theorem lexer_stops (htokenizer : tokenizer.IsTokenizer) :
    n ≤ source.toList.length ∧ ∀ token ∈ tokens, token.start ≤ n := by
  obtain ⟨t, ht, hinput, rfl⟩ := exists_of_lexer_ok hlexer
  have hwithin : t.index ≤ t.input.length :=
    ((rules.parser_backtracks (.lexer tokenizer delimiter)).ok ht).within (Nat.zero_le _)
  have htiles := rules.tiles_of_lexer_ok htokenizer delimiter (Nat.zero_le _) ht
  have hbounds := htiles.bounds fun _ _ =>
    Parser.SkipsTo.le (rules.parser_backtracks delimiter)
  refine ⟨hinput ▸ hwithin, fun token htoken => ?_⟩
  have hpiece := (htiles.pieces token htoken).start_lt_stop
  have hstop := (hbounds token htoken).2
  omega

/-- The grammar takes all the tokens: the run ends where the lexer stopped, and what failed on the way
is moved to the text. -/
theorem overTokens_of_ok {x : α} {u : State .tokens}
    (h : rules.parser (.whole g) { input := tokens } = .ok x u) :
    ∃ v, rules.parser (g.overTokens tokenizer delimiter) { input := source.toList } = .ok x v ∧
      v.input = source.toList ∧ v.index = n ∧
      v.failure = u.failure.map (·.toSource tokens source.toList n) := by
  obtain ⟨t, ht, hinput, rfl⟩ := exists_of_lexer_ok hlexer
  have hrun := rules.parser_after_events (.whole g) tokens t.events
  rw [h] at hrun
  refine ⟨_, Parser.staged_ok_ok (s := { input := source.toList }) ht hrun, hinput, rfl, ?_⟩
  rw [State.afterStages, State.failure_withPast_none _ _ rfl, hinput]
  exact Failure.none_furthest _

theorem overTokens_of_fail {severity : Severity} {u : State .tokens}
    (h : rules.parser (.whole g) { input := tokens } = .fail severity u) :
    ∃ v, rules.parser (g.overTokens tokenizer delimiter) { input := source.toList } =
        .fail severity v ∧
      v.failure = u.failure.map (·.toSource tokens source.toList n) := by
  obtain ⟨t, ht, hinput, rfl⟩ := exists_of_lexer_ok hlexer
  have hrun := rules.parser_after_events (.whole g) tokens t.events
  rw [h] at hrun
  refine ⟨_, Parser.staged_ok_fail (s := { input := source.toList }) ht hrun, ?_⟩
  rw [State.restore, State.afterStages, State.failure_withPast_none _ _ rfl, hinput]
  exact Failure.none_furthest _

theorem overTokens_of_fault {f : Fault}
    (h : rules.parser (.whole g) { input := tokens } = .fault f) :
    rules.parser (g.overTokens tokenizer delimiter) { input := source.toList } = .fault f := by
  obtain ⟨t, ht, -, -⟩ := exists_of_lexer_ok hlexer
  have hrun := rules.parser_after_events (.whole g) tokens t.events
  rw [h] at hrun
  exact Parser.staged_ok_fault (s := { input := source.toList }) ht hrun

/-- A text that goes on where the lexer stopped lacks its end there, whatever failed before. -/
theorem parse_overTokens_of_goesOn (htokenizer : tokenizer.IsTokenizer) {x : α} {u : State .tokens}
    (h : rules.parser (.whole g) { input := tokens } = .ok x u) {c : Char}
    (hc : source.toList[n]? = some c) :
    ∃ failure, failure = Failure.record (u.failure.map (·.toSource tokens source.toList n))
        ⟨n, ["EOF"], none, .unit c.toString⟩ ∧
      failure.position = n ∧ "EOF" ∈ failure.expected ∧
      (g.overTokens tokenizer delimiter).parse rules source =
        .ok (.error (.locate failure (.ofText source.toList))) := by
  obtain ⟨v, hrun, hinput, hindex, hfailure⟩ := overTokens_of_ok hlexer h
  have hstarts := (lexer_stops hlexer htokenizer).2
  have hkept : ∀ failure, u.failure.map (·.toSource tokens source.toList n) = some failure →
      failure.position ≤ n := by
    intro failure hmoved
    obtain ⟨among, -, rfl⟩ := Option.map_eq_some_iff.mp hmoved
    exact among.position_toSource_le source.toList hstarts (Nat.le_refl n)
  refine ⟨_, rfl, Failure.position_record_of_le hkept,
    Failure.expected_subset_record_of_le hkept (.head _), ?_⟩
  have hrefused := Grammar.parseInput_of_goesOn hrun (hindex ▸ hc)
  rw [hfailure, hindex] at hrefused
  rw [Grammar.parse_eq_parseInput, hrefused]
  rfl

end

/-- A failure for which a grammar of tokens refuses them is at one of them or past the last. -/
theorem position_le_of_parseInput_error {f : Failure} {severity : Severity} {u : State .tokens}
    (h : rules.parser (.whole g) { input := tokens } = .fail severity u)
    (hfailure : u.failure = some f) : f.position ≤ tokens.length := by
  have hlexes : (Grammar.whole g).Throughout rules.bindings
      fun part => part.grammar.LexesProperly :=
    Grammar.throughout_of_ne_text nofun fun part h =>
      (Grammar.Proper.of_ne_text h part.grammar).lexesProperly
  have hlawful := Rules.parser_lawful Failure.law_position_le hlexes
  exact (hlawful.fail (.start (a := .tokens) tokens []) h).failure f hfailure

/-- **Two stages are one after the other.** Over the tokens that a lexer finds in a text up to an
index, a grammar of tokens in which nothing fails without a word

* gives the value it gives over the tokens as a list, and a text that goes on at that index is
  refused there for want of an end;
* refuses the text for what it refuses the tokens as a list, at the start of the token or where the
  lexer stopped;
* is at fault if it is over the tokens as a list.

Of all failures on record only those of the grammar have a part in this. -/
theorem parse_overTokens (rules : Rules S) {g : Grammar S .tokens α}
    (hg : g.Throughout rules.bindings fun part => part.grammar.Vocal)
    {tokenizer : Grammar S .text Token} (htokenizer : tokenizer.IsTokenizer)
    (delimiter : Grammar S .text Unit) (source : String) (tokens : List Token) (n : Nat)
    (hlexer : (Grammar.lexer tokenizer delimiter).parsePrefix rules source =
      .ok (.ok (tokens, n))) :
    (∀ x, g.parseInput rules tokens = .ok (.ok x) →
      (g.overTokens tokenizer delimiter).parsePrefix rules source = .ok (.ok (x, n)) ∧
      (n = source.length →
        (g.overTokens tokenizer delimiter).parse rules source = .ok (.ok x)) ∧
      (n ≠ source.length → ∃ c u failure, source.toList[n]? = some c ∧
        rules.parser (.whole g) { input := tokens } = .ok x u ∧
        failure = Failure.record (u.failure.map (·.toSource tokens source.toList n))
          ⟨n, ["EOF"], none, .unit c.toString⟩ ∧
        failure.position = n ∧ "EOF" ∈ failure.expected ∧
        (g.overTokens tokenizer delimiter).parse rules source =
          .ok (.error (.locate failure (.ofText source.toList))))) ∧
    (∀ f, g.parseInput rules tokens = .ok (.error f) →
      ∃ moved, f.MovesTo tokens source.toList n moved ∧
        (g.overTokens tokenizer delimiter).parse rules source =
          .ok (.error (.locate moved (.ofText source.toList))) ∧
        (g.overTokens tokenizer delimiter).parsePrefix rules source =
          .ok (.error (.locate moved (.ofText source.toList)))) ∧
    (∀ f, g.parseInput rules tokens = .error f →
      (g.overTokens tokenizer delimiter).parse rules source = .error f ∧
      (g.overTokens tokenizer delimiter).parsePrefix rules source = .error f) := by
  have hstopped := (lexer_stops hlexer htokenizer).1
  refine ⟨fun x hx => ?_, fun f hf => ?_, fun f hf => ?_⟩
  · obtain ⟨u, hu⟩ := Grammar.exists_of_parseInput_ok hx
    obtain ⟨v, hrun, hinput, hindex, -⟩ := overTokens_of_ok hlexer hu
    refine ⟨?_, fun hn => ?_, fun hn => ?_⟩
    · rw [Grammar.parsePrefix_of_ok hrun, hindex]
    · have hended : ¬ v.index < v.input.length := by
        rw [hinput, hindex, String.length_toList, hn]
        exact Nat.lt_irrefl _
      exact Grammar.parse_of_ok (whole_of_ended hrun hended)
    · have hlt : n < source.toList.length :=
        Nat.lt_of_le_of_ne hstopped (String.length_toList ▸ hn)
      have hc := List.getElem?_eq_getElem hlt
      obtain ⟨failure, hfailure⟩ := parse_overTokens_of_goesOn hlexer htokenizer hu hc
      exact ⟨_, u, failure, hc, hu, hfailure⟩
  · have hspeaks : g.SpeaksUp rules.bindings := .of_vocal nofun hg
    obtain ⟨severity, u, hu, hfailure⟩ := Grammar.exists_of_parseInput_error hspeaks hf
    obtain ⟨v, hrun, hmoved⟩ := overTokens_of_fail hlexer hu
    rw [hfailure, Option.map_some] at hmoved
    refine ⟨f.toSource tokens source.toList n,
      Failure.movesTo_toSource (position_le_of_parseInput_error hu hfailure) hstopped, ?_, ?_⟩
    · rw [Grammar.parse_of_fail (whole_of_fail hrun), State.restore, hmoved]
      rfl
    · rw [Grammar.parsePrefix_of_fail hrun, hmoved]
      rfl
  · have hrun := overTokens_of_fault hlexer (Grammar.of_parseInput_fault hf)
    exact ⟨Grammar.parse_of_fault (whole_of_fault hrun), Grammar.parsePrefix_of_fault hrun⟩

end Rules

section

/-- What an input gave, if it was not refused. -/
def acceptance? {ε : Type} : Except Fault (Except ε α) → Option α
  | .ok (.ok x) => some x
  | _ => none

theorem eq_of_acceptance? {ε : Type} {x : α} {result : Except Fault (Except ε α)}
    (h : acceptance? result = some x) : result = .ok (.ok x) := by
  unfold acceptance? at h
  split at h
  · cases h; rfl
  · cases h

/-- A parenthesis is missing where a character stands that begins no token. -/
theorem nestedText_parse_unclosed :
    ((Grammar.ref (S := nestingScope) ()).Throughout nestingRules.bindings
      fun part => part.grammar.Vocal) ∧
    parentheses.tokenizer.IsTokenizer ∧
    (Grammar.lexer parentheses.tokenizer .blanks).parsePrefix nestingRules "(a ?" =
      .ok (.ok ([⟨0, 1, .reserved "(", "("⟩, ⟨1, 2, .identifier "a", "a"⟩], 3)) ∧
    (Grammar.ref (S := nestingScope) ()).parseInput nestingRules
      [⟨0, 1, .reserved "(", "("⟩, ⟨1, 2, .identifier "a", "a"⟩] =
      .ok (.error ⟨2, [")"], none, .endOfInput⟩) ∧
    nestedText.parse nestingRules "(a ?" =
      .ok (.error ⟨⟨1, 4⟩, ") expected, ? encountered."⟩) := by
  have hvocal : (Grammar.ref (S := nestingScope) ()).Throughout nestingRules.bindings
      fun part => part.grammar.Vocal :=
    fun part hpart => (nestedText_accountable part (.head (.head _) (.head (.head _) hpart))).2
  have hlexer : (Grammar.lexer parentheses.tokenizer .blanks).parsePrefix nestingRules "(a ?" =
      .ok (.ok ([⟨0, 1, .reserved "(", "("⟩, ⟨1, 2, .identifier "a", "a"⟩], 3)) :=
    eq_of_acceptance? (by decide +kernel)
  have hrefused : (Grammar.ref (S := nestingScope) ()).parseInput nestingRules
      [⟨0, 1, .reserved "(", "("⟩, ⟨1, 2, .identifier "a", "a"⟩] =
      .ok (.error ⟨2, [")"], none, .endOfInput⟩) :=
    eq_of_refusal? (by decide +kernel)
  obtain ⟨moved, hmoved, hparse, -⟩ :=
    (nestingRules.parse_overTokens hvocal (.registry _) .blanks _ _ _ hlexer).2.1 _ hrefused
  refine ⟨hvocal, .registry _, hlexer, hrefused, hparse.trans ?_⟩
  cases hmoved with
  | token h => cases h
  | character past h => cases h; rfl
  | endOfInput past h => cases h

end

end Descent
