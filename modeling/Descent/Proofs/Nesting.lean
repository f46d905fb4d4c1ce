import Descent.Grammar.Parse
import Descent.Proofs.Accounted
import Descent.Proofs.Balance

/-!
To watch a run does not change it.

Whatever a run adds to the events are the events of calls that are all done
(`Grammar.exists_of_parseText_ok`). So the two ways to watch a run tell of the same calls, and of the
same value or the same error as the run that nobody watches (`Rules.parse_watched`).
-/

namespace Descent

namespace Grammar

variable {S : Scope} {α : Type} {rules : Rules S} {g : Grammar S .text α}

/-- A run from the beginning of a text leaves the events of some calls. -/
theorem exists_of_parseText_ok {parsed : Parsed α} {text : List Char}
    (h : parseText rules g text = .ok parsed) :
    ∃ nodes, parsed.events = Trace.Node.eventsOf nodes := by
  let app : Application S := ⟨rules.depth, g, { input := text }⟩
  have hjournal : ∀ t : State .text,
      t.events = (Trace.Node.eventsOf (app.nodes rules.bindings)).reverse ++ [] →
      ∃ nodes, t.journal = Trace.Node.eventsOf nodes := by
    intro t ht
    exact ⟨_, by rw [State.journal, ht, List.append_nil, List.reverse_reverse]⟩
  have hevents : (rules.parser g { input := text }).Ends fun t =>
      t.events = (Trace.Node.eventsOf (app.nodes rules.bindings)).reverse ++ [] :=
    app.events_outcome
  cases hrun : rules.parser g { input := text } with
  | ok x t =>
    rw [hrun] at hevents
    simp only [parseText, hrun] at h
    cases h
    exact hjournal t hevents
  | fail severity t =>
    rw [hrun] at hevents
    simp only [parseText, hrun] at h
    cases h
    exact hjournal t hevents
  | fault f =>
    simp only [parseText, hrun] at h
    cases h

end Grammar

variable {S : Scope} {α : Type}

/-- **Watching a run does not change it.** If a parse is at fault, so is it when it is watched, in the
same way. Otherwise it has the same value or the same error whether it is not watched, watched as a
tree of calls or written to a log. The log is then the calls of the tree line by line, and after them
what is said of a text that was refused, if it was. -/
theorem Rules.parse_watched (rules : Rules S) (g : Grammar S .text α) (source : String) :
    (∀ f, g.parse rules source = .error f →
      g.parseTraced rules source = .error f ∧ g.parseLogged rules source = .error f) ∧
    ∀ result, g.parse rules source = .ok result →
      ∃ nodes, g.parseTraced rules source = .ok (result, nodes) ∧
        g.parseLogged rules source = .ok (result,
          ((Trace.Node.linesOf 0 nodes).map fun text => ⟨.trace, text⟩) ++
            match result with
            | .ok _ => []
            | .error error => [error.report]) := by
  cases h : Grammar.parseText rules (.whole g) source.toList with
  | error f =>
    simp only [Grammar.parse, Grammar.parseTraced, Grammar.parseLogged, Grammar.parseRecorded, h]
    refine ⟨fun f' hf => ?_, fun result hresult => ?_⟩
    · cases hf
      exact ⟨rfl, rfl⟩
    · cases hresult
  | ok parsed =>
    obtain ⟨nodes, hevents⟩ := Grammar.exists_of_parseText_ok h
    simp only [Grammar.parse, Grammar.parseTraced, Grammar.parseLogged, Grammar.parseRecorded, h,
      Except.map, Trace.Recorder.nodes, Trace.Recorder.reports, hevents, Trace.forest_eventsOf,
      Trace.log_eventsOf]
    refine ⟨fun f hf => ?_, fun result hresult => ⟨nodes, ?_, ?_⟩⟩
    · cases hf
    · cases hresult; rfl
    · cases hresult
      obtain ⟨_ | _, events⟩ := parsed <;> rfl

section

/-- Counts the letters in front of anything else. -/
def letters : Grammar nestingScope .text Nat :=
  .traced "letters" toString (.map List.length (.many (.label "letter" (.char 'a'))))

/-- Why a text with another letter is refused. -/
def otherLetter : ParseError :=
  ⟨⟨1, 3⟩, "letter or EOF expected, b encountered."⟩

/-- Three calls, of which the last one fails, inside a call that succeeds; then the text is refused. -/
theorem letters_watched :
    letters.parse nestingRules "aab" = .ok (.error otherLetter) ∧
    letters.parseTraced nestingRules "aab" = .ok (.error otherLetter,
      [.mk "letters" (some "2")
        [.mk "letter" none [], .mk "letter" none [], .mk "letter" none []]]) ∧
    letters.parseLogged nestingRules "aab" = .ok (.error otherLetter,
      [⟨.trace, "> letters"⟩, ⟨.trace, "  > letter"⟩, ⟨.trace, "  < letter"⟩,
        ⟨.trace, "  > letter"⟩, ⟨.trace, "  < letter"⟩, ⟨.trace, "  > letter"⟩,
        ⟨.trace, "  < letter"⟩, ⟨.trace, "  = 2"⟩, ⟨.trace, "< letters"⟩,
        ⟨.debug, "parse failed at 1:3: letter or EOF expected, b encountered."⟩]) := by
  have hrefused : letters.parse nestingRules "aab" = .ok (.error otherLetter) :=
    eq_of_refusal? (by decide +kernel)
  have htree : letters.parseTraced nestingRules "aab" = .ok (.error otherLetter,
      [.mk "letters" (some "2")
        [.mk "letter" none [], .mk "letter" none [], .mk "letter" none []]]) := rfl
  obtain ⟨nodes, htraced, hlogged⟩ := (nestingRules.parse_watched letters "aab").2 _ hrefused
  rw [htree] at htraced
  cases htraced
  exact ⟨hrefused, htree, hlogged.trans rfl⟩

end

end Descent
