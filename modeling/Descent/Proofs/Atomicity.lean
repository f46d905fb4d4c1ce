import Descent.Proofs.Built
import Descent.Proofs.Consumption
import Descent.Proofs.Pruning

/-!
When a failure is committed.

`atomic` sets the mark back to the place, looks at it afterwards and puts it together with the mark
before. From a state whose mark is not behind its place that adds nothing to what the operand leaves
(`State.raiseMark_withPast`), so all that can change is the severity of a failure: it is committed if
the operand has consumed beyond the place (`Rules.parser_atomic_fail`). What takes in one go never has
when it fails; nor has `atomic` itself when it lets alternatives be tried.
-/

namespace Descent

variable {a : Alphabet} {α β : Type}

/-- A mark that was set back to the place for a run is put back after it. -/
theorem State.raiseMark_withPast {s : State a} (hs : s.index ≤ s.mark) (t : State a) :
    (t.withPast { s with mark := s.index }.past).raiseMark s.mark = t.withPast s.past := by
  have hmax : max (max s.index t.mark) s.mark = max s.mark t.mark := by omega
  simp only [withPast, past, raiseMark, absorb, hmax]

namespace Parser

variable {p : Parser a α} {s t : State a} {x : α} {severity : Severity}

section

variable (hp : p.HistoryFree) (hs : s.index ≤ s.mark)

include hp hs

/-- A failure after something has been consumed becomes a committed one, and nothing else changes. -/
theorem atomic_of_consumed (h : p s.bare = .fail .recoverable t) (hmark : s.index < t.mark) :
    atomic p s = .fail .committed ((t.withPast s.past).restore s.index) := by
  rw [atomic_consumed (hp.fail_at h rfl) (Nat.lt_of_lt_of_le hmark (Nat.le_max_right _ _)),
    State.raiseMark_withPast hs]

/-- Where the operand does not fail recoverably after having consumed, it is as if there were no
`atomic`. -/
theorem atomic_of_unconsumed (h : ∀ t, p s.bare = .fail .recoverable t → t.mark ≤ s.index) :
    atomic p s = p s := by
  rw [hp.bare s]
  cases hbare : p s.bare with
  | ok x t => rw [atomic_ok (hp.ok_at hbare rfl), State.raiseMark_withPast hs]; rfl
  | fail severity t =>
    have hfresh : p { s with mark := s.index } = _ := hp.fail_at hbare rfl
    cases severity with
    | recoverable =>
      have huntouched : ¬ s.index < max s.index t.mark :=
        Nat.not_lt.mpr (Nat.max_le.mpr ⟨Nat.le_refl _, h t hbare⟩)
      rw [atomic_untouched hfresh huntouched, State.raiseMark_withPast hs]
      rfl
    | committed => rw [atomic_committed hfresh, State.raiseMark_withPast hs]; rfl
  | fault g =>
    rw [atomic_fault (hp.fault_at hbare rfl)]
    rfl

/-- What takes in one go has consumed nothing when it fails. -/
theorem TakesAtOnce.atomic_eq (h : p.TakesAtOnce) : atomic p s = p s := by
  refine atomic_of_unconsumed hp hs fun t ht => ?_
  have hmark := h s.bare
  rw [ht] at hmark
  cases hmark with
  | fail mark => rw [mark]; exact Nat.zero_le _

end

/-- If alternatives may be tried, the mark is where it was or not beyond the place. -/
theorem mark_le_of_atomic (h : atomic p s = .fail .recoverable t) : t.mark ≤ max s.index s.mark := by
  cases hp : p { s with mark := s.index } with
  | ok x u => rw [atomic_ok hp] at h; cases h
  | fail severity u =>
    cases severity with
    | recoverable =>
      by_cases hmark : s.index < u.mark
      · rw [atomic_consumed hp hmark] at h; cases h
      · rw [atomic_untouched hp hmark] at h
        cases h
        exact Nat.max_le.mpr ⟨Nat.le_trans (Nat.not_lt.mp hmark) (Nat.le_max_left _ _),
          Nat.le_max_right _ _⟩
    | committed => rw [atomic_committed hp] at h; cases h
  | fault g => rw [atomic_fault hp] at h; cases h

/-- Once is enough. -/
theorem atomic_atomic (hp : p.HistoryFree) (hs : s.index ≤ s.mark) :
    atomic (atomic p) s = atomic p s :=
  atomic_of_unconsumed hp.atomic hs fun _ ht =>
    Nat.le_trans (mark_le_of_atomic ht) (Nat.max_le.mpr ⟨Nat.le_refl _, Nat.zero_le _⟩)

end Parser

/-! ## Grammars -/

variable {S : Scope}

/-- The grammars of the library that take in one go all they take: looks, single units, scanners of
patterns and of quoted text, and the tokenizers for literals and for the terminals of a vocabulary. -/
inductive Grammar.TakesAtOnce : {a : Alphabet} → {α : Type} → Grammar S a α → Prop where
  | peek {a : Alphabet} {α : Type} (p : Grammar S a α) : TakesAtOnce (peek p)
  | notFollowedBy {a : Alphabet} {α : Type} (p : Grammar S a α) (name : String) :
      TakesAtOnce (notFollowedBy p name)
  /-- A unit of a class, and whatever else is made of one unit. -/
  | item {a : Alphabet} {α : Type} (extract : a.Item → Option α) (names : List String) :
      TakesAtOnce (item extract names)
  /-- A pattern, a matcher given from outside, and quoted text. -/
  | scan {α : Type} (matcher : List Char → Nat → Option (Nat × α)) (name : String) :
      TakesAtOnce (scan matcher name)
  | literal (quote : Char) {g : Grammar S .text Token} (hg : g ∈ literalTokenizers quote) :
      TakesAtOnce g
  | long : TakesAtOnce longTokenizer
  | registry (registry : Registry S) : TakesAtOnce registry.tokenizer

theorem Grammar.TakesAtOnce.run {g : Grammar S a α} (h : g.TakesAtOnce) (resolve : Resolver S) :
    (g.run resolve).TakesAtOnce := by
  cases h with
  | peek p => exact .peek _
  | notFollowedBy p name => exact .notFollowedBy _ name
  | item extract names => exact .item extract names
  | scan matcher name => exact .scan matcher name
  | literal quote hg =>
    simp only [literalTokenizers, List.mem_cons, List.not_mem_nil, or_false] at hg
    rcases hg with rfl | rfl | rfl | rfl | rfl | rfl | rfl | rfl | rfl <;>
      exact .spanned _ (.scan _ _)
  | long =>
    exact .label _ (.orElse (.orElse (.spanned _ (.scan _ _)) (.spanned _ (.scan _ _)))
      (.spanned _ (.scan _ _)))
  | registry registry => exact .terminal _ _

namespace Rules

variable {rules : Rules S} {p : Grammar S a α} {q : Grammar S a β} {s t : State a} {x : α}
  {severity : Severity}

/-- In an `atomic` from a state, a grammar has consumed beyond the place. -/
def Consumes (rules : Rules S) (g : Grammar S a α) (s : State a) : Prop :=
  Application.ConsumesPast rules.bindings s.index ⟨rules.depth, g, { s with mark := s.index }⟩

/-- A sequence has consumed if its first part has moved. -/
theorem consumes_seq (h : rules.parser p s = .ok x t) (hmoved : s.index < t.index) :
    rules.Consumes (.seq p q) s := by
  have hp : (rules.parser p).HistoryFree := rules.parser_withPast p
  obtain ⟨t₀, ht₀, rfl⟩ := hp.bare_ok h
  have hfirst : rules.Consumes p s := .here (hp.ok_at ht₀ rfl) hmoved hmoved
  exact Application.consumesPast_iff.mpr
    (.inr (Application.exists_taking_seqWith.mpr (.inl hfirst)))

/-- A sequence whose first part fails has consumed only if that part has. -/
theorem Consumes.of_seq (hconsumes : rules.Consumes (.seq p q) s)
    (h : rules.parser p s = .fail severity t) : rules.Consumes p s := by
  have hp : (rules.parser p).HistoryFree := rules.parser_withPast p
  obtain ⟨t₀, ht₀, rfl⟩ := hp.bare_fail h
  have hfresh : p.run (rules.bindings.resolver rules.depth) { s with mark := s.index } = _ :=
    hp.fail_at ht₀ rfl
  rcases Application.consumesPast_iff.mp hconsumes with ⟨y, u, hrun, -⟩ | hinside
  · have hseq : rules.parser (.seq p q) { s with mark := s.index } = _ :=
      Parser.seqWith_fail (f := Prod.mk) (q := rules.parser q) hfresh
    rw [show rules.parser (.seq p q) { s with mark := s.index } = _ from hrun] at hseq
    cases hseq
  · rcases Application.exists_taking_seqWith.mp hinside with hfirst | ⟨y, u, hrun, -⟩
    · exact hfirst
    · rw [hfresh] at hrun
      cases hrun

/-- Where a grammar fails, the mark tells whether it has consumed. -/
theorem lt_mark_iff_consumes (h : rules.parser p s.bare = .fail severity t) :
    s.index < t.mark ↔ rules.Consumes p s := by
  have hp : (rules.parser p).HistoryFree := rules.parser_withPast p
  have hmarks := Application.marksPast rules.bindings (i := s.index)
    ⟨rules.depth, p, { s with mark := s.index }⟩ id
  have hfresh : p.run (rules.bindings.resolver rules.depth) { s with mark := s.index } = _ :=
    hp.fail_at h rfl
  unfold Application.outcome at hmarks
  rw [hfresh] at hmarks
  have hmax : s.index < max s.index t.mark ↔ s.index < t.mark := by omega
  exact hmax.symm.trans (Iff.trans hmarks (or_iff_right (Nat.lt_irrefl _)))

/-- A recoverable failure of the operand stays as it is but for the severity: it is committed if the
operand has consumed, and recoverable if it has not. -/
theorem parser_atomic_fail (hs : s.index ≤ s.mark) (h : rules.parser p s = .fail .recoverable t) :
    (rules.Consumes p s → rules.parser (.atomic p) s = .fail .committed t) ∧
    (¬ rules.Consumes p s → rules.parser (.atomic p) s = .fail .recoverable t) := by
  have hp : (rules.parser p).HistoryFree := rules.parser_withPast p
  have hindex : t.index = s.index := ((rules.parser_backtracks p).fail h).2
  obtain ⟨t₀, ht₀, rfl⟩ := hp.bare_fail h
  constructor
  · intro hconsumes
    have hcommitted := Parser.atomic_of_consumed hp hs ht₀ ((lt_mark_iff_consumes ht₀).mpr hconsumes)
    rw [← hindex] at hcommitted
    exact hcommitted
  · intro hnot
    have hsame : Parser.atomic (rules.parser p) s = rules.parser p s := by
      refine Parser.atomic_of_unconsumed hp hs fun u hu => ?_
      rw [ht₀] at hu
      cases hu
      exact Nat.not_lt.mp (mt (lt_mark_iff_consumes ht₀).mp hnot)
    exact hsame.trans h

/-- **When `atomic` commits.** Let the mark not be behind the place. Twice is once. What takes in one
go is as it is without `atomic`, whatever is looked at in it. If the second part of a sequence fails
recoverably after the first one has moved, an `atomic` around the sequence commits, at the place where
it began. If the first part fails recoverably and has consumed nothing but in looks, the failure stays
recoverable, and an alternative is tried from there. -/
theorem parser_atomic (rules : Rules S) (p : Grammar S a α) (q : Grammar S a β) (s : State a)
    (hs : s.index ≤ s.mark) :
    rules.parser (.atomic (.atomic p)) s = rules.parser (.atomic p) s ∧
    (p.TakesAtOnce → rules.parser (.atomic p) s = rules.parser p s) ∧
    (∀ x t u, rules.parser p s = .ok x t → s.index < t.index →
      rules.parser q t = .fail .recoverable u →
        rules.parser (.atomic (.seq p q)) s = .fail .committed (u.restore s.index)) ∧
    ∀ t, rules.parser p s = .fail .recoverable t → ¬ rules.Consumes p s →
      t.index = s.index ∧ rules.parser (.atomic (.seq p q)) s = .fail .recoverable t ∧
        ∀ r, rules.parser (.orElse (.atomic (.seq p q)) r) s = rules.parser r t := by
  have hp : (rules.parser p).HistoryFree := rules.parser_withPast p
  refine ⟨Parser.atomic_atomic hp hs, fun htakes => (htakes.run _).atomic_eq hp hs, ?_, ?_⟩
  · intro x t u hfirst hmoved hsecond
    have hseq : rules.parser (.seq p q) s = .fail .recoverable (u.restore s.index) :=
      Parser.seqWith_ok_fail hfirst hsecond
    exact (parser_atomic_fail hs hseq).1 (consumes_seq hfirst hmoved)
  · intro t hfirst hnot
    have hindex : t.index = s.index := ((rules.parser_backtracks p).fail hfirst).2
    have hseq : rules.parser (.seq p q) s = .fail .recoverable (t.restore s.index) :=
      Parser.seqWith_fail hfirst
    rw [← hindex] at hseq
    have hrecoverable : rules.parser (.atomic (.seq p q)) s = .fail .recoverable t :=
      (parser_atomic_fail hs hseq).2 fun hconsumes => hnot (hconsumes.of_seq hfirst)
    refine ⟨hindex, hrecoverable, fun r => ?_⟩
    have hchoice : rules.parser (.orElse (.atomic (.seq p q)) r) s =
        rules.parser r (t.restore s.index) := Parser.orElse_recoverable hrecoverable
    rw [hchoice, ← hindex]
    rfl

end Rules

section

/-- Half a pair. -/
def halfPair : State .text :=
  { input := ['a', 'c'] }

/-- An `a` that is looked at, and a `b` in its place. -/
def aheadOfPair : Grammar closedScope .text Char :=
  .skipThen (.peek (letter 'a')) (letter 'b')

/-- After an `a` that was taken half a pair is given up; after one that was looked at it is not. -/
theorem halfPair_atomic :
    halfPair.index ≤ halfPair.mark ∧ ¬ closedRules.Consumes aheadOfPair halfPair ∧
    closedRules.parser (.atomic (letter 'a')) halfPair = closedRules.parser (letter 'a') halfPair ∧
    (∃ v, closedRules.parser (.atomic (.seq (letter 'a') (letter 'b'))) halfPair =
      .fail .committed v ∧ v.index = 0) ∧
    ∃ v, closedRules.parser (.atomic (.seq aheadOfPair (letter 'b'))) halfPair =
      .fail .recoverable v ∧ v.index = 0 := by
  have hs : halfPair.index ≤ halfPair.mark := by decide
  have hlooks : ¬ closedRules.Consumes aheadOfPair halfPair := by
    intro hconsumes
    exact absurd ((Rules.lt_mark_iff_consumes rfl).mpr hconsumes) (by decide)
  obtain ⟨-, hsame, hcommits, -⟩ := closedRules.parser_atomic (letter 'a') (letter 'b') halfPair hs
  obtain ⟨-, -, -, hstays⟩ := closedRules.parser_atomic aheadOfPair (letter 'b') halfPair hs
  refine ⟨hs, hlooks, hsame (.item _ _), ⟨_, hcommits _ _ _ rfl (by decide) rfl, rfl⟩, ?_⟩
  obtain ⟨hindex, hrecoverable, -⟩ := hstays _ rfl hlooks
  exact ⟨_, hrecoverable, hindex⟩

end

end Descent
