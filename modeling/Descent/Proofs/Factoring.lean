import Descent.Grammar.Combinator
import Descent.Proofs.Backtracking
import Descent.Proofs.History

/-!
A common beginning may be written once.

`p q | p r` runs `p` a second time where `p (q | r)` does not. The second run starts from a state
that has all on record that the first one left; so it ends where the first one did and adds nothing
but events (`Parser.HistoryFree.again_ok`, `again_fail`). Events apart, the two grammars are the same
(`Rules.parser_skipThen_orElse`).
-/

namespace Descent

variable {a : Alphabet} {α β γ : Type}

/-! ## Events apart -/

/-- The state without what those who watch have seen. -/
def State.unwatched (s : State a) : State a :=
  { s with events := [] }

/-- The outcome without what those who watch have seen. -/
def Outcome.unwatched (outcome : Outcome a α) : Outcome a α :=
  outcome.mapState State.unwatched

theorem Outcome.unwatched_map (f : α → β) (outcome : Outcome a α) :
    (outcome.map f).unwatched = outcome.unwatched.map f := by
  cases outcome <;> rfl

theorem State.unwatched_withPast (s : State a) :
    s.unwatched.withPast { events := s.events } = s := by
  simp only [unwatched, withPast, absorb, Failure.none_furthest, Nat.zero_max, List.nil_append]

theorem Outcome.unwatched_withPast (outcome : Outcome a α) (events : List Trace.Event) :
    (outcome.mapState (·.withPast { events })).unwatched = outcome.unwatched := by
  cases outcome <;>
    simp only [unwatched, mapState, State.unwatched, State.withPast, State.absorb,
      Failure.none_furthest, Nat.zero_max]

/-- Runs from states that differ in their events end in states that differ in their events. -/
theorem Parser.HistoryFree.unwatched {p : Parser a α} (hp : p.HistoryFree) {s t : State a}
    (h : s.unwatched = t.unwatched) : (p s).unwatched = (p t).unwatched := by
  have hpast : ∀ u : State a, (p u).unwatched = (p u.unwatched).unwatched := by
    intro u
    have hu := hp u.unwatched { events := u.events }
    rw [State.unwatched_withPast] at hu
    rw [hu, Outcome.unwatched_withPast]
  rw [hpast s, hpast t, h]

/-! ## The same run again -/

/-- A state has all on record that another one has, and as much consumed. -/
structure State.Covers (s t : State a) : Prop where
  failure : ∃ since, s.failure = Failure.furthest t.failure since
  mark : t.mark ≤ s.mark

theorem State.Covers.refl (s : State a) : s.Covers s :=
  ⟨⟨none, rfl⟩, Nat.le_refl _⟩

theorem State.covers_past (s t : State a) : (t.withPast s.past).Covers s :=
  ⟨⟨t.failure, rfl⟩, Nat.le_max_left _ _⟩

/-- What a run left is in what was on record before it and what it left from the bare place; all of
this is covered, so there is nothing to add. -/
theorem State.unwatched_withPast_of_covers {s t u : State a} (hinput : u.input = t.input)
    (hcovers : u.Covers (t.withPast s.past)) :
    (t.withPast u.past).unwatched = (u.restore t.index).unwatched := by
  obtain ⟨⟨since, hsince⟩, hmark⟩ := hcovers
  have hfailure : Failure.furthest u.failure t.failure = u.failure := by
    rw [hsince, State.failure_withPast, Failure.furthest_again]
  have hmax : max u.mark t.mark = u.mark :=
    Nat.max_eq_left (Nat.le_trans (Nat.le_max_right _ _) hmark)
  simp only [unwatched, withPast, absorb, past, restore, hfailure, hmax, hinput]

namespace Parser.HistoryFree

variable {p : Parser a α} {s t u : State a} {x : α} {severity : Severity}

theorem again_ok (hp : p.HistoryFree) (h : p s = .ok x t) (hinput : u.input = s.input)
    (hkept : t.input = s.input) (hcovers : u.Covers t) :
    ∃ t', p (u.restore s.index) = .ok x t' ∧ t'.unwatched = (u.restore t.index).unwatched := by
  obtain ⟨t₀, h₀, rfl⟩ := hp.bare_ok h
  exact ⟨t₀.withPast u.past, hp.ok_at h₀ (State.bare_restore hinput),
    State.unwatched_withPast_of_covers (hinput.trans hkept.symm) hcovers⟩

theorem again_fail (hp : p.HistoryFree) (h : p s = .fail severity t) (hinput : u.input = s.input)
    (hkept : t.input = s.input) (hcovers : u.Covers t) :
    ∃ t', p (u.restore s.index) = .fail severity t' ∧
      t'.unwatched = (u.restore t.index).unwatched := by
  obtain ⟨t₀, h₀, rfl⟩ := hp.bare_fail h
  exact ⟨t₀.withPast u.past, hp.fail_at h₀ (State.bare_restore hinput),
    State.unwatched_withPast_of_covers (hinput.trans hkept.symm) hcovers⟩

/-- Whatever a failing run had on record when it began it has on record when it ends. -/
theorem fail_covers (hp : p.HistoryFree) (h : p s = .fail severity t) : t.Covers s := by
  obtain ⟨t₀, -, rfl⟩ := hp.bare_fail h
  exact State.covers_past s t₀

end Parser.HistoryFree

/-! ## Factoring -/

theorem Outcome.unwatched_backTo (index : Nat) (outcome : Outcome a α) :
    (outcome.backTo index).unwatched = outcome.unwatched.backTo index := by
  cases outcome <;> rfl

namespace Parser

variable {p : Parser a α} {q r : Parser a β} {f : α → β → γ} {s t u : State a} {x : α}

/-- Where the first part fails recoverably, so it does the second time. -/
theorem unwatched_seqWith_twice_fail (hp : p.HistoryFree) (hb : p.Backtracks)
    (h : p s = .fail .recoverable t) :
    (seqWith f p r (t.restore s.index)).unwatched = (seqWith f p q s).unwatched := by
  obtain ⟨hinput, hindex⟩ := hb.fail h
  obtain ⟨t', h', ht'⟩ := hp.again_fail h hinput hinput (.refl t)
  rw [seqWith_fail h, seqWith_fail h']
  exact congrArg (fun v : State a => Outcome.fail .recoverable (v.restore s.index)) ht'

/-- Where the second part fails recoverably, the first part comes to the same place the second
time. -/
theorem unwatched_seqWith_twice_ok (hp : p.HistoryFree) (hq : q.HistoryFree) (hr : r.HistoryFree)
    (hbp : p.Backtracks) (hbq : q.Backtracks) (h : p s = .ok x t)
    (h' : q t = .fail .recoverable u) :
    (seqWith f p r ((u.restore s.index).restore s.index)).unwatched =
      (((r (u.restore t.index)).map (f x)).backTo s.index).unwatched := by
  have hinput := (hbp.ok h).input
  obtain ⟨t', ht', hsame⟩ :=
    hp.again_ok h ((hbq.fail h').1.trans hinput) hinput (hq.fail_covers h')
  rw [show (u.restore s.index).restore s.index = u.restore s.index from rfl, seqWith_of_ok ht',
    Outcome.unwatched_backTo, Outcome.unwatched_backTo, Outcome.unwatched_map,
    Outcome.unwatched_map, hr.unwatched hsame, State.index_restore]

/-- A sequence whose second part is a choice is a choice of two sequences. The cases follow how the
first part ends and, if it succeeds, how the first alternative does. -/
theorem unwatched_seqWith_orElse (hp : p.HistoryFree) (hq : q.HistoryFree) (hr : r.HistoryFree)
    (hbp : p.Backtracks) (hbq : q.Backtracks) (s : State a) :
    (seqWith f p (orElse q r) s).unwatched =
      (orElse (seqWith f p q) (seqWith f p r) s).unwatched := by
  cases h : p s with
  | ok x t =>
    cases h' : q t with
    | ok y u => rw [seqWith_ok_ok h (orElse_ok h'), orElse_ok (seqWith_ok_ok h h')]
    | fail severity u =>
      cases severity with
      | recoverable =>
        rw [orElse_recoverable (seqWith_ok_fail h h'), seqWith_of_ok h, orElse_recoverable h',
          unwatched_seqWith_twice_ok hp hq hr hbp hbq h h']
      | committed =>
        rw [seqWith_ok_fail h (orElse_committed h'), orElse_committed (seqWith_ok_fail h h')]
    | fault g => rw [seqWith_ok_fault h (orElse_fault h'), orElse_fault (seqWith_ok_fault h h')]
  | fail severity t =>
    cases severity with
    | recoverable =>
      rw [orElse_recoverable (seqWith_fail h)]
      exact (unwatched_seqWith_twice_fail hp hbp h).symm
    | committed => rw [seqWith_fail h, orElse_committed (seqWith_fail h)]
  | fault g => rw [seqWith_fault h, orElse_fault (seqWith_fault h)]

end Parser

/-- **A common beginning may be written once.** Whether two alternatives share their first part or
each begin with it: they end with the same value, the same kind of failure or the same fault, at the
same index, with the same mark and the same failure on record. Only the events tell that the first
part may have run twice. -/
theorem Rules.parser_skipThen_orElse {S : Scope} (rules : Rules S) (p : Grammar S a α)
    (q r : Grammar S a β) (s : State a) :
    (rules.parser (.skipThen p (.orElse q r)) s).unwatched =
      (rules.parser (.orElse (.skipThen p q) (.skipThen p r)) s).unwatched :=
  Parser.unwatched_seqWith_orElse (rules.parser_withPast p) (rules.parser_withPast q)
    (rules.parser_withPast r) (rules.parser_backtracks p) (rules.parser_backtracks q) s

end Descent
