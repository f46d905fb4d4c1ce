import Descent.Grammar.Scanner
import Descent.Proofs.Repetition

/-!
The text that a parser has matched.

Whatever a parser has looked at or taken and given back on its way, what it has matched lies between
the place where it began and the place where it ended. A run that begins within its text ends within
it, so that text is there (`Parser.source_eq`); and stretches that follow one another are put together
to one (`State.textUpTo_append`). So the texts of the parts are the text of the whole, in a sequence
and in a repetition (`Rules.parser_source`).
-/

namespace Descent

namespace State

/-- The text between the place and an index after it. -/
def textUpTo (s : State .text) (stop : Nat) : String :=
  .ofList ((s.input.drop s.index).take (stop - s.index))

variable {s t : State .text}

theorem textUpTo_self (s : State .text) : s.textUpTo s.index = "" := by
  rw [textUpTo, Nat.sub_self, List.take_zero, String.ofList_nil]

theorem textUpTo_append (h : s.Follows t) {stop : Nat} (hstop : t.index ≤ stop) :
    s.textUpTo t.index ++ t.textUpTo stop = s.textUpTo stop := by
  have hparts : stop - s.index = (t.index - s.index) + (stop - t.index) := by
    have hle := h.index_le
    omega
  rw [textUpTo, textUpTo, textUpTo, ← String.ofList_append, hparts, List.take_add, List.drop_drop,
    Nat.add_sub_cancel' h.index_le, h.input]

end State

/-- The outcome of a run from a state with the text between the two places for a value. -/
def Outcome.matched {α : Type} (s : State .text) : Outcome .text α → Outcome .text String
  | ok _ t => .ok (s.textUpTo t.index) t
  | fail severity t => .fail severity t
  | fault f => .fault f

namespace Parser

variable {α β : Type}

/-- The text that a parser matched. -/
def source (p : Parser .text α) : Parser .text String :=
  spanned (fun _ _ _ text => .ofList text) p

variable {p : Parser .text α} {q : Parser .text β} {s t : State .text} {x : α}
  {severity : Severity} {f : Fault}

theorem source_ok (hp : p.Backtracks) (hs : s.index ≤ s.input.length) (h : p s = .ok x t) :
    source p s = .ok (s.textUpTo t.index) t := by
  have ht := hp.ok h
  have hslice : t.slice? s.index t.index = some ((t.input.drop s.index).take (t.index - s.index)) :=
    if_pos ⟨ht.index_le, ht.within hs⟩
  rw [ht.input] at hslice
  exact spanned_ok h hslice

theorem source_fail (h : p s = .fail severity t) : source p s = .fail severity t :=
  spanned_fail h

theorem source_fault (h : p s = .fault f) : source p s = .fault f :=
  spanned_fault h

/-- Within the text, what a parser matched is between the place where it began and the place where it
ended. -/
theorem source_eq (hp : p.Backtracks) (hs : s.index ≤ s.input.length) :
    source p s = (p s).matched s := by
  cases h : p s with
  | ok x t => exact source_ok hp hs h
  | fail severity t => exact source_fail h
  | fault f => exact source_fault h

/-- Past the end of the text there is none, not even an empty one. -/
theorem source_pastEnd (hp : p.Backtracks) (hs : s.input.length < s.index) (h : p s = .ok x t) :
    source p s = .fault .outOfRange := by
  have ht := hp.ok h
  refine spanned_out h (if_neg fun hwithin => ?_)
  rw [ht.input] at hwithin
  exact absurd (Nat.le_trans hwithin.1 hwithin.2) (Nat.not_le.mpr hs)

/-! ## Texts put together -/

theorem source_seq (hp : p.Backtracks) (hq : q.Backtracks) (hs : s.index ≤ s.input.length) :
    seqWith (· ++ ·) (source p) (source q) s = source (seqWith Prod.mk p q) s := by
  rw [source_eq (hp.seqWith Prod.mk hq) hs]
  cases h : p s with
  | ok x t =>
    have ht := hp.ok h
    rw [seqWith_of_ok (source_ok hp hs h), seqWith_of_ok h, source_eq hq (ht.within hs)]
    cases h' : q t with
    | ok y u =>
      have happend := State.textUpTo_append ht (hq.ok h').index_le
      simp only [Outcome.matched, Outcome.map_ok, Outcome.backTo, happend]
    | fail severity u => rfl
    | fault f => rfl
  | fail severity t => rw [seqWith_fail (source_fail h), seqWith_fail h]; rfl
  | fault f => rw [seqWith_fault (source_fault h), seqWith_fault h]; rfl

/-- The repetition of a parser and the repetition of its text have the same rounds. The texts of the
rounds follow one another, so they make up the text from the first to the end. -/
theorem Repeats.source {states : List (State .text)} {outcome : Outcome .text (List α)}
    (hp : p.Backtracks) (hs : s.index ≤ s.input.length) (h : p.Repeats s states outcome) :
    ∃ texts, (source p).Repeats s states texts ∧ texts.map String.join = outcome.matched s := by
  induction h with
  | @moves s t x states outcome run moved rest ih =>
    have ht := hp.ok run
    obtain ⟨texts, hrepeats, htexts⟩ := ih (ht.within hs)
    refine ⟨_, .moves (source_ok hp hs run) moved hrepeats, ?_⟩
    have hjoin : (texts.map (s.textUpTo t.index :: ·)).map String.join =
        (texts.map String.join).map (s.textUpTo t.index ++ ·) := by
      cases texts with
      | ok xs u => simp only [Outcome.map_ok, String.join_cons]
      | fail severity u => rfl
      | fault f => rfl
    rw [hjoin, htexts]
    cases outcome with
    | ok xs u =>
      have hmany : many p t = .ok xs u := many_of_repeats hp (ht.within hs) rest
      have happend := State.textUpTo_append ht (hp.many.ok hmany).index_le
      simp only [Outcome.matched, Outcome.map_ok, happend]
    | fail severity u => rfl
    | fault f => rfl
  | stands run still => exact ⟨_, .stands (source_ok hp hs run) still, rfl⟩
  | @ends s t run =>
    have hnone : Outcome.matched s (.ok ([] : List α) (t.restore s.index)) =
        .ok (s.textUpTo s.index) (t.restore s.index) := rfl
    refine ⟨_, .ends (source_fail run), ?_⟩
    rw [hnone, State.textUpTo_self]
    rfl
  | commits run => exact ⟨_, .commits (source_fail run), rfl⟩
  | faults run => exact ⟨_, .faults (source_fault run), rfl⟩

theorem source_many (hp : p.Backtracks) (hs : s.index ≤ s.input.length) :
    map String.join (many (source p)) s = source (many p) s := by
  obtain ⟨states, outcome, hrepeats⟩ := exists_repeats hp s hs
  obtain ⟨texts, hsource, htexts⟩ := hrepeats.source hp hs
  calc map String.join (many (source p)) s
    _ = (texts.backTo s.index).map String.join :=
      congrArg (Outcome.map String.join) (many_of_repeats (hp.spanned _) hs hsource)
    _ = (texts.map String.join).backTo s.index := by cases texts <;> rfl
    _ = (outcome.matched s).backTo s.index := by rw [htexts]
    _ = (outcome.backTo s.index).matched s := by cases outcome <;> rfl
    _ = source (many p) s := by rw [source_eq hp.many hs, many_of_repeats hp hs hrepeats]

end Parser

/-! ## Grammars -/

/-- **Matched text.** Within the text, the text of a grammar is there where the grammar succeeds, and it
is what lies between the place where that began and the place where it ended; in all else the two runs
are one. The texts of two grammars, one after the other, make up the text of the sequence, and those of
the rounds make up the text of a repetition, with the same outcome in the same state. -/
theorem Rules.parser_source {S : Scope} {α β : Type} (rules : Rules S) (p : Grammar S .text α)
    (q : Grammar S .text β) (s : State .text) (hs : s.index ≤ s.input.length) :
    rules.parser (.source p) s = (rules.parser p s).matched s ∧
    rules.parser (.map (fun pair => pair.1 ++ pair.2) (.seq (.source p) (.source q))) s =
      rules.parser (.source (.seq p q)) s ∧
    rules.parser (.map String.join (.many (.source p))) s =
      rules.parser (.source (.many p)) s := by
  have hp : (rules.parser p).Backtracks := rules.parser_backtracks p
  have hq : (rules.parser q).Backtracks := rules.parser_backtracks q
  exact ⟨Parser.source_eq hp hs,
    (congrFun (Parser.map_seqWith _ _ _ _) s).trans (Parser.source_seq hp hq hs),
    Parser.source_many hp hs⟩

section

/-- An `a`, and a `b` if there is one. -/
def openPair : Grammar closedScope .text Char :=
  .thenSkip (letter 'a') (.optional (letter 'b'))

/-- An `a` with no `b` behind it. -/
def lonelyLetter : Grammar closedScope .text Char :=
  .thenSkip (letter 'a') (.notFollowedBy (letter 'b') "pair")

/-- A pair and an `a` have one text, and so have two rounds. -/
theorem openPair_matched :
    0 ≤ (['a', 'b', 'a', 'c'] : List Char).length ∧
    (∃ t, closedRules.parser (.map (fun pair => pair.1 ++ pair.2)
      (.seq (.source openPair) (.source lonelyLetter))) { input := ['a', 'b', 'a', 'c'] } =
        .ok "aba" t ∧ t.index = 3) ∧
    ∃ t, closedRules.parser (.map String.join (.many (.source openPair)))
      { input := ['a', 'b', 'a', 'c'] } = .ok "aba" t ∧ t.index = 3 := by
  have hwithin : 0 ≤ (['a', 'b', 'a', 'c'] : List Char).length := Nat.zero_le _
  obtain ⟨-, hseq, hmany⟩ := closedRules.parser_source openPair lonelyLetter
    { input := ['a', 'b', 'a', 'c'] } hwithin
  rw [hseq, hmany]
  exact ⟨hwithin, ⟨_, rfl, rfl⟩, ⟨_, rfl, rfl⟩⟩

/-- A state that has been set past the end of its text. -/
def pastText : State .text :=
  { input := ['a', 'b'], index := 5 }

/-- There is no text past the end where nothing can be taken but a constant. -/
theorem pure_source_pastText :
    ¬ ((∃ text t, closedRules.parser (.source (.pure 1)) pastText = .ok text t) ↔
      ∃ x t, closedRules.parser (.pure 1) pastText = .ok x t) := by
  intro h
  have hpast : pastText.input.length < pastText.index := by decide
  have hfault := Parser.source_pastEnd (closedRules.parser_backtracks (.pure 1)) hpast rfl
  obtain ⟨text, t, ht⟩ := h.mpr ⟨1, pastText, rfl⟩
  cases hfault.symm.trans ht

end

end Descent
