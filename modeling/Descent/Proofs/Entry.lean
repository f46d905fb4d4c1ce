import Descent.Proofs.Accounted
import Descent.Proofs.Furthest

/-!
The ways to parse a text agree.

A text may be parsed in full, as the list of its characters, or from its beginning. All three run the
same grammar, the first two with the end of the input after it. So an error of the first is that of
the second seen in lines and columns (`Grammar.parse_eq_parseInput`), and a parse of the beginning
tells what becomes of the whole: an error stays, a value that leaves nothing over stays, and one that
leaves something over is refused where it stops, or where the run had failed beyond
(`Grammar.parseInput_of_goesOn`). `Rules.parse_agrees` puts the three together.
-/

namespace Descent

variable {S : Scope} {α : Type} {rules : Rules S} {g : Grammar S .text α} {source : String}

namespace Grammar

/-- To parse a text is to parse its characters and to find the line and column of an error. -/
theorem parse_eq_parseInput (rules : Rules S) (g : Grammar S .text α) (source : String) :
    g.parse rules source = (g.parseInput rules source.toList).map
      (Except.mapError (ParseError.locate · (.ofText source.toList))) := by
  cases h : rules.parser (.whole g) { input := source.toList } with
  | ok x t => rw [parse_of_ok h, parseInput_of_ok (a := .text) h]; rfl
  | fail severity t => rw [parse_of_fail h, parseInput_of_fail (a := .text) h]; rfl
  | fault f => rw [parse_of_fault h, parseInput_of_fault (a := .text) h]; rfl

/-- Where not even the beginning can be parsed, the whole text is refused for the same reason. -/
theorem parse_of_parsePrefix_error {error : ParseError}
    (h : g.parsePrefix rules source = .ok (.error error)) :
    g.parse rules source = .ok (.error error) := by
  cases hrun : rules.parser g { input := source.toList } with
  | ok x t => rw [parsePrefix_of_ok hrun] at h; cases h
  | fail severity t =>
    rw [parsePrefix_of_fail hrun] at h
    cases h
    rw [parse_of_fail (Rules.whole_of_fail hrun)]
    rfl
  | fault f => rw [parsePrefix_of_fault hrun] at h; cases h

/-- A beginning that is the whole text is parsed in full. -/
theorem parse_of_parsePrefix_ok {x : α}
    (h : g.parsePrefix rules source = .ok (.ok (x, source.toList.length))) :
    g.parse rules source = .ok (.ok x) := by
  obtain ⟨t, hrun, hindex⟩ := exists_of_parsePrefix_ok h
  have hinput : t.input = source.toList := ((rules.parser_backtracks g).ok hrun).input
  exact parse_of_ok (Rules.whole_of_ended hrun (by rw [hinput, hindex]; exact Nat.lt_irrefl _))

/-- A text that goes on after what has been parsed lacks its end there; that failure is put to what
the run has on record. -/
theorem parseInput_of_goesOn {x : α} {t : State .text}
    (hrun : rules.parser g { input := source.toList } = .ok x t) {c : Char}
    (hc : source.toList[t.index]? = some c) :
    g.parseInput rules source.toList =
      .ok (.error (Failure.record t.failure ⟨t.index, ["EOF"], none, .unit c.toString⟩)) := by
  have hinput : t.input = source.toList := ((rules.parser_backtracks g).ok hrun).input
  have hgoesOn : t.index < t.input.length := by
    rw [hinput]
    exact (List.getElem?_eq_some_iff.mp hc).1
  have hencountered : t.encountered = .unit c.toString := by
    rw [State.encountered, State.next?, hinput, hc]
    rfl
  have hfailure : ((t.expect ["EOF"]).restore 0).failure =
      some (Failure.record t.failure ⟨t.index, ["EOF"], none, .unit c.toString⟩) := by
    rw [State.restore, State.expect, State.record, hencountered]
    rfl
  rw [parseInput_of_fail (a := .text) (Rules.whole_of_goesOn hrun hgoesOn), hfailure]
  rfl

end Grammar

/-- **Entry points agree.** A text is parsed as the list of its characters is, with the same faults
and values, and with an error at the line and column of the failure, in its words. If the beginning
of a text is refused, so is the text, with the same error. If the beginning is parsed and nothing is
left, the text has the same value. If something is left, the text is refused at the further of where
that is and where the run has failed, and the end of the input is expected there if it is the former. -/
theorem Rules.parse_agrees (rules : Rules S) (g : Grammar S .text α) (source : String) :
    g.parse rules source = (g.parseInput rules source.toList).map
      (Except.mapError fun failure =>
        ⟨(LineIndex.ofText source.toList).locate failure.position, failure.render⟩) ∧
    (∀ error, g.parsePrefix rules source = .ok (.error error) →
      g.parse rules source = .ok (.error error)) ∧
    (∀ x, g.parsePrefix rules source = .ok (.ok (x, source.toList.length)) →
      g.parse rules source = .ok (.ok x)) ∧
    ∀ x n, g.parsePrefix rules source = .ok (.ok (x, n)) → n < source.toList.length →
      ∃ t failure, rules.parser g { input := source.toList } = .ok x t ∧
        g.parseInput rules source.toList = .ok (.error failure) ∧
        g.parse rules source = .ok (.error
          ⟨(LineIndex.ofText source.toList).locate failure.position, failure.render⟩) ∧
        failure.position = max n ((t.failure.map Failure.position).getD 0) ∧
        (failure.position = n → "EOF" ∈ failure.expected) := by
  have hlocated := Grammar.parse_eq_parseInput rules g source
  refine ⟨hlocated, fun _ => Grammar.parse_of_parsePrefix_error,
    fun _ => Grammar.parse_of_parsePrefix_ok, fun x n h hn => ?_⟩
  obtain ⟨t, hrun, rfl⟩ := Grammar.exists_of_parsePrefix_ok h
  have hrefused := Grammar.parseInput_of_goesOn hrun (List.getElem?_eq_getElem hn)
  have hparse := hlocated
  rw [hrefused] at hparse
  have hposition := Failure.position_record t.failure
    ⟨t.index, ["EOF"], none, .unit source.toList[t.index].toString⟩
  refine ⟨t, _, hrun, hrefused, hparse, by rw [hposition, Nat.max_comm], fun hstop => ?_⟩
  refine Failure.expected_subset_record_of_le (fun kept hkept => ?_) (.head _)
  have hmax : max kept.position t.index = t.index := by
    rw [hposition, hkept] at hstop
    exact hstop
  show kept.position ≤ t.index
  omega

section

/-- An `a` and a `b`, any number of times. -/
def letterPairs : Grammar nestingScope .text (List (Char × Char)) :=
  .many (.seq (.char 'a') (.char 'b'))

/-- The text stops after one pair, and is refused for what the second one lacks. -/
theorem letterPairs_agree :
    letterPairs.parsePrefix nestingRules "abac" = .ok (.ok ([('a', 'b')], 2)) ∧
    2 < "abac".toList.length ∧
    ∃ t failure, nestingRules.parser letterPairs { input := "abac".toList } = .ok [('a', 'b')] t ∧
      letterPairs.parseInput nestingRules "abac".toList = .ok (.error failure) ∧
      letterPairs.parse nestingRules "abac" =
        .ok (.error ⟨⟨1, 4⟩, "b expected, c encountered."⟩) ∧
      failure.position = max 2 ((t.failure.map Failure.position).getD 0) := by
  have hbegun : letterPairs.parsePrefix nestingRules "abac" = .ok (.ok ([('a', 'b')], 2)) := rfl
  have hlength : 2 < "abac".toList.length := by decide
  have hrefused : letterPairs.parse nestingRules "abac" =
      .ok (.error ⟨⟨1, 4⟩, "b expected, c encountered."⟩) :=
    eq_of_refusal? (by decide +kernel)
  obtain ⟨-, -, -, hgoesOn⟩ := nestingRules.parse_agrees letterPairs "abac"
  obtain ⟨t, failure, hrun, hinput, -, hposition, -⟩ := hgoesOn _ 2 hbegun hlength
  exact ⟨hbegun, hlength, t, failure, hrun, hinput, hrefused, hposition⟩

end

end Descent
