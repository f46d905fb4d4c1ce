import Descent.Grammar.Combinator
import Descent.Proofs.Backtracking
import Descent.Proofs.History
import Descent.Proofs.Recorded

/-!
A look leaves nothing behind but its answer.

`peek` and `notFollowedBy` end where they began and with the mark they began with, whatever their
operand has done. `notFollowedBy` runs its operand without the failure kept so far; that has no say in
how the operand ends, so the answer is about the operand as it would run at the place
(`Parser.notFollowedBy_cases`), and of two of them, one in the other, the outer one succeeds where the
operand does. To look before one parses is to parse: what the look has put on record takes in what is
recorded again (`Parser.peek_skipThen_agrees`).
-/

namespace Descent

variable {a : Alphabet} {α β : Type}

/-- Two outcomes with the same value, the same severity or the same fault, in states that are
related. -/
inductive Outcome.Agrees (related : State a → State a → Prop) :
    Outcome a α → Outcome a α → Prop where
  | ok (value : α) {s t : State a} (h : related s t) : Agrees related (.ok value s) (.ok value t)
  | fail (severity : Severity) {s t : State a} (h : related s t) :
      Agrees related (.fail severity s) (.fail severity t)
  | fault (f : Fault) : Agrees related (.fault f) (.fault f)

namespace Parser

/-! ## Nothing moves -/

theorem peek_stays (p : Parser a α) (s : State a) :
    (peek p s).Ends fun t => t.index = s.index ∧ t.mark = s.mark := by
  rw [peek_apply]
  cases p s with
  | ok x t | fail severity t => exact ⟨rfl, rfl⟩
  | fault f => trivial

theorem notFollowedBy_stays (p : Parser a α) (name : String) (s : State a) :
    (notFollowedBy p name s).Ends fun t => t.index = s.index ∧ t.mark = s.mark := by
  cases h : p s.dropFailure with
  | ok x t => rw [notFollowedBy_ok h]; exact ⟨rfl, rfl⟩
  | fail severity t => rw [notFollowedBy_fail h]; exact ⟨rfl, rfl⟩
  | fault f => rw [notFollowedBy_fault h]; trivial

/-! ## What must not follow -/

section

variable {p : Parser a α} {s : State a}

/-- What must not follow is there, is not there, or cannot be asked for, just as the operand ends at
the place. The failure kept so far is put back in each case, and one is put behind it in the first. -/
theorem notFollowedBy_cases (hp : p.HistoryFree) (hb : p.Backtracks) (name : String) (s : State a) :
    (∃ x t u, p s = .ok x t ∧ notFollowedBy p name s = .fail .recoverable u ∧
      u.failure = Failure.furthest s.failure
        (some ⟨s.index, [], some ("unexpected " ++ name), s.encountered⟩)) ∨
    (∃ severity t u, p s = .fail severity t ∧ notFollowedBy p name s = .ok () u ∧
      u.failure = s.failure) ∨
    ∃ f, p s = .fault f ∧ notFollowedBy p name s = .fault f := by
  have hplace : s.dropFailure.bare = s.bare := rfl
  cases h : p s with
  | ok x t =>
    obtain ⟨v, hv, -⟩ := hp.ok_of_bare h hplace
    have hinput : v.input = s.input := (hb.ok hv).input
    have hencountered : (s.afterLook v).encountered = s.encountered :=
      State.encountered_congr hinput rfl
    refine .inl ⟨x, t, _, rfl, notFollowedBy_ok hv, ?_⟩
    rw [← hencountered]
    rfl
  | fail severity t =>
    obtain ⟨v, hv, -⟩ := hp.fail_of_bare h hplace
    exact .inr (.inl ⟨severity, t, _, rfl, notFollowedBy_fail hv, rfl⟩)
  | fault f =>
    exact .inr (.inr ⟨f, rfl, notFollowedBy_fault (hp.fault_of_bare h hplace)⟩)

theorem notFollowedBy_ok_iff (hp : p.HistoryFree) (hb : p.Backtracks) (name : String) :
    (∃ u, notFollowedBy p name s = .ok () u) ↔ ∃ severity t, p s = .fail severity t := by
  rcases notFollowedBy_cases hp hb name s with
    ⟨x, t, u, h, h', -⟩ | ⟨severity, t, u, h, h', -⟩ | ⟨f, h, h'⟩ <;> simp [h, h']

theorem notFollowedBy_fail_iff (hp : p.HistoryFree) (hb : p.Backtracks) (name : String) :
    (∃ severity u, notFollowedBy p name s = .fail severity u) ↔ ∃ x t, p s = .ok x t := by
  rcases notFollowedBy_cases hp hb name s with
    ⟨x, t, u, h, h', -⟩ | ⟨severity, t, u, h, h', -⟩ | ⟨f, h, h'⟩ <;> simp [h, h']

theorem notFollowedBy_fault_iff (hp : p.HistoryFree) (hb : p.Backtracks) (name : String)
    (f : Fault) : notFollowedBy p name s = .fault f ↔ p s = .fault f := by
  rcases notFollowedBy_cases hp hb name s with
    ⟨x, t, u, h, h', -⟩ | ⟨severity, t, u, h, h', -⟩ | ⟨g, h, h'⟩ <;> simp [h, h']

end

/-! ## Looking ahead -/

theorem peek_agrees (p : Parser a α) (s : State a) :
    (peek p s).Agrees (fun t u => t.failure = u.failure) (p s) := by
  rw [peek_apply]
  cases p s with
  | ok x t => exact .ok x rfl
  | fail severity t => exact .fail severity rfl
  | fault f => exact .fault f

/-- The second run starts at the place of the first one and finds on record all that it records. -/
theorem peek_skipThen_agrees {p : Parser a α} (hp : p.HistoryFree) (hb : p.Backtracks)
    (s : State a) : (seqWith (fun _ y => y) (peek p) p s).Agrees
      (fun t u => t.index = u.index ∧ t.failure = u.failure) (p s) := by
  cases h : p s with
  | ok x t =>
    have hpeek : peek p s = .ok x { t with index := s.index, mark := s.mark } := by
      rw [peek_apply, h]; rfl
    have hplace : ({ t with index := s.index, mark := s.mark } : State a).bare = s.bare :=
      State.bare_restore (hb.ok h).input
    obtain ⟨t₀, ht₀, rfl⟩ := hp.bare_ok h
    rw [seqWith_ok_ok hpeek (hp.ok_at ht₀ hplace)]
    exact .ok x ⟨rfl, Failure.furthest_again s.failure t₀.failure none⟩
  | fail severity t =>
    have hpeek : peek p s = .fail severity { t with index := s.index, mark := s.mark } := by
      rw [peek_apply, h]; rfl
    rw [seqWith_fail hpeek]
    exact .fail severity ⟨(hb.fail h).2.symm, rfl⟩
  | fault f =>
    have hpeek : peek p s = .fault f := by rw [peek_apply, h]; rfl
    rw [seqWith_fault hpeek]
    exact .fault f

end Parser

/-- **Lookahead leaves no residue.** Both looks end at the place and with the mark they started with.
What must not follow is refused exactly where it would be parsed, with a message at the place put
behind the failure kept so far, and where it would fail, committed or not, nothing is recorded; twice
refused is parsed. `peek` ends as its operand does and leaves its failure on record, and to look and
then to parse is to parse, with the same end at the same index and the same failure on record. -/
theorem Rules.parser_looks {S : Scope} (rules : Rules S) (p : Grammar S a α) (name inner : String)
    (s : State a) :
    ((rules.parser (.notFollowedBy p name) s).Ends fun t => t.index = s.index ∧ t.mark = s.mark) ∧
    ((rules.parser (.peek p) s).Ends fun t => t.index = s.index ∧ t.mark = s.mark) ∧
    ((∃ t, rules.parser (.notFollowedBy p name) s = .ok () t) ↔
      ∃ severity t, rules.parser p s = .fail severity t) ∧
    ((∃ severity t, rules.parser (.notFollowedBy p name) s = .fail severity t) ↔
      ∃ x t, rules.parser p s = .ok x t) ∧
    (∀ f, rules.parser (.notFollowedBy p name) s = .fault f ↔ rules.parser p s = .fault f) ∧
    (∀ t, rules.parser (.notFollowedBy p name) s = .ok () t → t.failure = s.failure) ∧
    (∀ severity t, rules.parser (.notFollowedBy p name) s = .fail severity t →
      severity = .recoverable ∧ t.failure = Failure.furthest s.failure
        (some ⟨s.index, [], some ("unexpected " ++ name), s.encountered⟩)) ∧
    ((∃ t, rules.parser (.notFollowedBy (.notFollowedBy p inner) name) s = .ok () t) ↔
      ∃ x t, rules.parser p s = .ok x t) ∧
    (rules.parser (.peek p) s).Agrees (fun t u => t.failure = u.failure) (rules.parser p s) ∧
    (rules.parser (.skipThen (.peek p) p) s).Agrees
      (fun t u => t.index = u.index ∧ t.failure = u.failure) (rules.parser p s) := by
  have hp : (rules.parser p).HistoryFree := rules.parser_withPast p
  have hb : (rules.parser p).Backtracks := rules.parser_backtracks p
  have htwice := (Parser.notFollowedBy_ok_iff (s := s) (hp.notFollowedBy inner)
    (hb.notFollowedBy inner) name).trans (Parser.notFollowedBy_fail_iff hp hb inner)
  have hcases := Parser.notFollowedBy_cases hp hb name s
  refine ⟨Parser.notFollowedBy_stays _ name s, Parser.peek_stays _ s,
    Parser.notFollowedBy_ok_iff hp hb name, Parser.notFollowedBy_fail_iff hp hb name,
    Parser.notFollowedBy_fault_iff hp hb name, ?_, ?_, htwice, Parser.peek_agrees _ s,
    Parser.peek_skipThen_agrees hp hb s⟩
  · intro t ht
    rcases hcases with ⟨_, _, u, -, h, -⟩ | ⟨_, _, u, -, h, hfailure⟩ | ⟨_, -, h⟩
    · cases ht.symm.trans h
    · cases ht.symm.trans h; exact hfailure
    · cases ht.symm.trans h
  · intro severity t ht
    rcases hcases with ⟨_, _, u, -, h, hfailure⟩ | ⟨_, _, u, -, h, -⟩ | ⟨_, -, h⟩
    · cases ht.symm.trans h; exact ⟨rfl, hfailure⟩
    · cases ht.symm.trans h
    · cases ht.symm.trans h

end Descent
