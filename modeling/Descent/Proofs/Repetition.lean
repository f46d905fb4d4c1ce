import Descent.Grammar.Combinator
import Descent.Proofs.Backtracking
import Descent.Proofs.Pruning
import Descent.Proofs.Tokens

/-!
A repetition takes as much as there is.

`Parser.Repeats` is the repetition without a limit on its rounds: it applies its operand until that
fails or stands still. Every round but the last moves forwards, so there is at most one more of them
than there are units left (`Repeats.length_le`), the limit of `many` is never reached
(`many_of_repeats`), and the repetition unfolds as one would write it by hand (`many_unfold`).

What the operand does in a round does not depend on the rounds before it but for the place. So the
rounds are seen in the input alone: `Parser.Steps` is a chain of places from each of which the operand
leads to the next, and how the operand ends where the chain does is how the repetition ends
(`Rules.parser_many`).
-/

namespace Descent

namespace Parser

variable {a : Alphabet} {α β γ δ : Type}

/-! ## Rounds without a limit -/

/-- A repetition: the states from which it applies its operand, in order, and how it ends. -/
inductive Repeats (p : Parser a α) : State a → List (State a) → Outcome a (List α) → Prop where
  | moves {s t : State a} {x : α} {states : List (State a)} {outcome : Outcome a (List α)}
      (run : p s = .ok x t) (moved : t.index ≠ s.index) (rest : Repeats p t states outcome) :
      Repeats p s (s :: states) (outcome.map (x :: ·))
  | stands {s t : State a} {x : α} (run : p s = .ok x t) (still : t.index = s.index) :
      Repeats p s [s] (.fault (.emptyRepetition s.index))
  | ends {s t : State a} (run : p s = .fail .recoverable t) :
      Repeats p s [s] (.ok [] (t.restore s.index))
  | commits {s t : State a} (run : p s = .fail .committed t) : Repeats p s [s] (.fail .committed t)
  | faults {s : State a} {f : Fault} (run : p s = .fault f) : Repeats p s [s] (.fault f)

variable {p : Parser a α} {s t u : State a} {x : α} {f : Fault} {states : List (State a)}
  {outcome : Outcome a (List α)}

/-- Every round but the last takes a unit. -/
theorem Repeats.length_le (hp : p.Backtracks) (h : p.Repeats s states outcome)
    (hs : s.index ≤ s.input.length) : states.length ≤ s.input.length - s.index + 1 := by
  induction h with
  | @moves s t x states outcome run moved rest ih =>
    have ht := hp.ok run
    have hwithin := ht.within hs
    have hle := ht.index_le
    have hrest := ih hwithin
    rw [ht.input] at hwithin hrest
    simp only [List.length_cons]
    omega
  | stands | ends | commits | faults => exact Nat.le_add_left 1 _

/-- With as many rounds as the repetition needs, or more, a limit makes no difference. -/
theorem Repeats.iterate_eq {n : Nat} (h : p.Repeats s states outcome) (hn : states.length ≤ n) :
    iterate p n s = outcome := by
  induction n generalizing s states outcome with
  | zero => cases h <;> exact absurd hn (Nat.not_succ_le_zero _)
  | succ n ih =>
    cases h with
    | moves run moved rest =>
      rw [iterate_moved run moved, ih rest (Nat.le_of_succ_le_succ hn)]
    | stands run still => exact iterate_stuck run still
    | ends run => exact iterate_recoverable run
    | commits run => exact iterate_committed run
    | faults run => exact iterate_fault run

/-- A repetition comes to an end. The induction is on the units that are left. -/
theorem exists_repeats (hp : p.Backtracks) (s : State a) (hs : s.index ≤ s.input.length) :
    ∃ states outcome, p.Repeats s states outcome := by
  induction hleft : s.input.length - s.index using Nat.strongRecOn generalizing s with
  | ind left ih =>
    cases h : p s with
    | ok x t =>
      by_cases hindex : t.index = s.index
      · exact ⟨_, _, .stands h hindex⟩
      · have ht := hp.ok h
        have hwithin := ht.within hs
        have hle := ht.index_le
        have hlength := congrArg List.length ht.input
        obtain ⟨states, outcome, hrest⟩ := ih _ (by omega) t hwithin rfl
        exact ⟨_, _, .moves h hindex hrest⟩
    | fail severity t =>
      cases severity with
      | recoverable => exact ⟨_, _, .ends h⟩
      | committed => exact ⟨_, _, .commits h⟩
    | fault f => exact ⟨_, _, .faults h⟩

/-- The rounds of a repetition come to an end, and its limit leaves room for all of them. -/
def Settles (p : Parser a α) (s : State a) : Prop :=
  ∃ states outcome, p.Repeats s states outcome ∧ states.length ≤ s.input.length - s.index + 1

theorem settles_within (hp : p.Backtracks) (hs : s.index ≤ s.input.length) : p.Settles s := by
  obtain ⟨states, outcome, h⟩ := exists_repeats hp s hs
  exact ⟨states, outcome, h, h.length_le hp hs⟩

theorem Settles.many_eq (hs : p.Settles s) (h : p.Repeats s states outcome) :
    many p s = outcome.backTo s.index := by
  obtain ⟨states', outcome', h', hlength⟩ := hs
  have hsame : outcome' = outcome :=
    (h'.iterate_eq (Nat.le_max_left _ _)).symm.trans (h.iterate_eq (Nat.le_max_right _ _))
  rw [many_apply, h'.iterate_eq hlength, hsame]

theorem many_of_repeats (hp : p.Backtracks) (hs : s.index ≤ s.input.length)
    (h : p.Repeats s states outcome) : many p s = outcome.backTo s.index :=
  (settles_within hp hs).many_eq h

/-! ## One round at a time -/

theorem backTo_map_backTo (f : α → β) (i j : Nat) (outcome : Outcome a α) :
    ((outcome.backTo i).map f).backTo j = (outcome.map f).backTo j := by
  cases outcome <;> rfl

theorem map_seqWith (g : γ → δ) (f : α → β → γ) (p : Parser a α) (q : Parser a β) :
    map g (seqWith f p q) = seqWith (fun x y => g (f x y)) p q := by
  funext s
  rw [map_apply]
  cases h : p s with
  | ok x t => rw [seqWith_of_ok h, seqWith_of_ok h]; cases q t <;> rfl
  | fail severity t => rw [seqWith_fail h, seqWith_fail h]; rfl
  | fault f => rw [seqWith_fault h, seqWith_fault h]; rfl

/-- A parser that stood still stands still again. -/
theorem HistoryFree.still_again (hp : p.HistoryFree) (hb : p.Backtracks) (h : p s = .ok x t)
    (hindex : t.index = s.index) : ∃ u, p t = .ok x u ∧ u.index = t.index := by
  obtain ⟨u, hu, hplace⟩ := hp.ok_of_bare h (State.bare_eq_iff.mpr ⟨(hb.ok h).input, hindex⟩)
  exact ⟨u, hu, (State.bare_eq_iff.mp hplace).2⟩

/-- A repetition is one round and a repetition after it, or nothing. -/
theorem many_unfold (hp : p.HistoryFree) (hb : p.Backtracks) (hs : s.index ≤ s.input.length) :
    many p s = orElse (seqWith List.cons p (many p)) (pure []) s := by
  obtain ⟨states, outcome, hrepeats⟩ := exists_repeats hb s hs
  rw [many_of_repeats hb hs hrepeats]
  cases hrepeats with
  | @moves _ t x states outcome run moved rest =>
    have hround : seqWith List.cons p (many p) s = (outcome.map (x :: ·)).backTo s.index := by
      rw [seqWith_of_ok run, many_of_repeats hb ((hb.ok run).within hs) rest, backTo_map_backTo]
    rw [orElse_of_ne_recoverable, hround]
    intro u hu
    have hrest := many_ne_recoverable p t
    rw [many_of_repeats hb ((hb.ok run).within hs) rest] at hrest
    rw [hround] at hu
    cases outcome with
    | ok xs v => cases hu
    | fail severity v => cases hu; exact hrest _ rfl
    | fault f => cases hu
  | @stands _ t x run still =>
    obtain ⟨u, hu, hindex⟩ := hp.still_again hb run still
    have hagain : many p t = .fault (.emptyRepetition t.index) := many_fault (iterate_stuck hu hindex)
    rw [orElse_fault (seqWith_ok_fault run hagain), still]
    rfl
  | ends run => rw [orElse_recoverable (seqWith_fail run)]; rfl
  | commits run => rw [orElse_committed (seqWith_fail run)]; rfl
  | faults run => rw [orElse_fault (seqWith_fault run)]; rfl

/-! ## Places -/

/-- A chain of places in an input: from each of them the parser leads forwards to the next, with these
values. -/
inductive Steps (p : Parser a α) (input : List a.Item) : Nat → List α → Nat → Prop where
  | none (i : Nat) : Steps p input i [] i
  | step {i k : Nat} {x : α} {t : State a} {xs : List α} (run : p { input, index := i } = .ok x t)
      (moved : i < t.index) (rest : Steps p input t.index xs k) : Steps p input i (x :: xs) k

/-- At the end of a chain a parser is at fault, or it would be repeated there for ever. -/
inductive BreaksDown (p : Parser a α) (input : List a.Item) (k : Nat) : Fault → Prop where
  | still {x : α} {t : State a} (run : p { input, index := k } = .ok x t) (still : t.index = k) :
      BreaksDown p input k (.emptyRepetition k)
  | fault {f : Fault} (run : p { input, index := k } = .fault f) : BreaksDown p input k f

/-- How a repetition ends that began at an index: its values are those of a chain of places, and at
the end of the chain the parser ends as it says. -/
inductive FollowsSteps (p : Parser a α) (input : List a.Item) (i : Nat) :
    Outcome a (List α) → Prop where
  | ok {xs : List α} {t : State a} (steps : p.Steps input i xs t.index)
      (ended : ∃ u, p { input, index := t.index } = .fail .recoverable u) :
      FollowsSteps p input i (.ok xs t)
  | fail {xs : List α} {k : Nat} {t : State a} (steps : p.Steps input i xs k)
      (commits : ∃ u, p { input, index := k } = .fail .committed u) :
      FollowsSteps p input i (.fail .committed t)
  | fault {xs : List α} {k : Nat} {f : Fault} (steps : p.Steps input i xs k)
      (breaks : p.BreaksDown input k f) : FollowsSteps p input i (.fault f)

section

variable {input : List a.Item} {i j k : Nat} {xs : List α}

/-- A step in front of a chain. -/
theorem FollowsSteps.cons (h : p.FollowsSteps input j outcome)
    (run : p { input, index := i } = .ok x t) (hindex : t.index = j) (moved : i < j) :
    p.FollowsSteps input i (outcome.map (x :: ·)) := by
  subst hindex
  cases h with
  | ok steps ended => exact .ok (.step run moved steps) ended
  | fail steps commits => exact .fail (.step run moved steps) commits
  | fault steps breaks => exact .fault (.step run moved steps) breaks

/-- A repetition follows a chain of places: each of its rounds does what the operand does from the
bare place. -/
theorem Repeats.followsSteps (hp : p.HistoryFree) (hb : p.Backtracks)
    (h : p.Repeats s states outcome) : p.FollowsSteps s.input s.index outcome := by
  induction h with
  | @moves s t x states outcome run moved rest ih =>
    have ht := hb.ok run
    obtain ⟨t₀, ht₀, rfl⟩ := hp.bare_ok run
    rw [ht.input] at ih
    exact ih.cons ht₀ rfl (Nat.lt_of_le_of_ne ht.index_le (Ne.symm moved))
  | stands run still =>
    obtain ⟨t₀, ht₀, rfl⟩ := hp.bare_ok run
    exact .fault (.none _) (.still ht₀ still)
  | ends run =>
    obtain ⟨t₀, ht₀, -⟩ := hp.bare_fail run
    exact .ok (.none _) ⟨t₀, ht₀⟩
  | commits run =>
    obtain ⟨t₀, ht₀, -⟩ := hp.bare_fail run
    exact .fail (.none _) ⟨t₀, ht₀⟩
  | faults run => exact .fault (.none _) (.fault (hp.bare_fault run))

theorem FollowsSteps.backTo (h : p.FollowsSteps input i outcome) (index : Nat) :
    p.FollowsSteps input i (outcome.backTo index) := by
  cases h with
  | ok steps ended => exact .ok steps ended
  | fail steps commits => exact .fail steps commits
  | fault steps breaks => exact .fault steps breaks

theorem many_followsSteps (hp : p.HistoryFree) (hb : p.Backtracks) (hs : p.Settles s) :
    p.FollowsSteps s.input s.index (many p s) := by
  obtain ⟨states, outcome, hrepeats, -⟩ := id hs
  rw [hs.many_eq hrepeats]
  exact (hrepeats.followsSteps hp hb).backTo s.index

/-- A repetition takes every step of a chain and goes on from its end as it would by itself. -/
theorem Steps.repeats (hp : p.HistoryFree) (hb : p.Backtracks) (h : p.Steps input i xs k)
    {s : State a} (hs : s.bare = { input, index := i }) : ∃ t, t.bare = { input, index := k } ∧
      ∀ states outcome, p.Repeats t states outcome →
        ∃ states', p.Repeats s states' (outcome.map (xs ++ ·)) := by
  induction h generalizing s with
  | none i =>
    refine ⟨s, hs, fun states outcome hrest => ⟨states, ?_⟩⟩
    simp only [List.nil_append, Outcome.map_self]
    exact hrest
  | @step i k x t₀ xs run moved rest ih =>
    have hrun : p s = .ok x (t₀.withPast s.past) := hp.ok_at run hs
    have hinput : t₀.input = input := (hb.ok run).input
    have hindex : s.index = i := congrArg State.index hs
    obtain ⟨u, hu, hrest⟩ := ih (s := t₀.withPast s.past)
      (by simp only [State.bare, State.input_withPast, State.index_withPast, hinput])
    refine ⟨u, hu, fun states outcome hrepeats => ?_⟩
    obtain ⟨states', hstates'⟩ := hrest states outcome hrepeats
    have hmoved : (t₀.withPast s.past).index ≠ s.index := by
      rw [hindex]
      exact Nat.ne_of_gt moved
    have hround := Repeats.moves hrun hmoved hstates'
    rw [Outcome.map_map] at hround
    exact ⟨_, hround⟩

end

/-! ## How a repetition ends -/

section

variable (hp : p.HistoryFree) (hb : p.Backtracks) (hs : p.Settles s)

include hp hb hs

theorem many_of_steps {xs : List α} {k : Nat} (h : p.Steps s.input s.index xs k) :
    ∃ t, t.bare = { input := s.input, index := k } ∧
      ∀ states outcome, p.Repeats t states outcome →
        many p s = (outcome.map (xs ++ ·)).backTo s.index := by
  obtain ⟨t, ht, hrest⟩ := h.repeats hp hb (s := s) rfl
  refine ⟨t, ht, fun states outcome hrepeats => ?_⟩
  obtain ⟨states', hstates'⟩ := hrest states outcome hrepeats
  exact hs.many_eq hstates'

theorem many_ok_iff (xs : List α) (j : Nat) :
    (∃ t, many p s = .ok xs t ∧ t.index = j) ↔
      p.Steps s.input s.index xs j ∧
        ∃ u, p { input := s.input, index := j } = .fail .recoverable u := by
  constructor
  · rintro ⟨t, ht, rfl⟩
    have hfollows := many_followsSteps hp hb hs
    rw [ht] at hfollows
    cases hfollows with
    | ok steps ended => exact ⟨steps, ended⟩
  · rintro ⟨hsteps, u, hu⟩
    obtain ⟨t, ht, hmany⟩ := many_of_steps hp hb hs hsteps
    have hvalues := hmany _ _ (.ends (hp.fail_at hu ht))
    rw [Outcome.map_ok, List.append_nil] at hvalues
    exact ⟨_, hvalues, congrArg State.index ht⟩

theorem many_committed_iff :
    (∃ t, many p s = .fail .committed t ∧ t.index = s.index) ↔
      ∃ xs k, p.Steps s.input s.index xs k ∧
        ∃ u, p { input := s.input, index := k } = .fail .committed u := by
  constructor
  · rintro ⟨t, ht, -⟩
    have hfollows := many_followsSteps hp hb hs
    rw [ht] at hfollows
    cases hfollows with
    | fail steps commits => exact ⟨_, _, steps, commits⟩
  · rintro ⟨xs, k, hsteps, u, hu⟩
    obtain ⟨t, ht, hmany⟩ := many_of_steps hp hb hs hsteps
    exact ⟨_, hmany _ _ (.commits (hp.fail_at hu ht)), rfl⟩

theorem many_fault_iff (f : Fault) :
    many p s = .fault f ↔
      ∃ xs k, p.Steps s.input s.index xs k ∧ p.BreaksDown s.input k f := by
  constructor
  · intro h
    have hfollows := many_followsSteps hp hb hs
    rw [h] at hfollows
    cases hfollows with
    | fault steps breaks => exact ⟨_, _, steps, breaks⟩
  · rintro ⟨xs, k, hsteps, hbreaks⟩
    obtain ⟨t, ht, hmany⟩ := many_of_steps hp hb hs hsteps
    have hindex : t.index = k := congrArg State.index ht
    cases hbreaks with
    | @still x u run still =>
      have hfault := hmany _ _ (.stands (hp.ok_at run ht) (still.trans hindex.symm))
      rw [hindex] at hfault
      exact hfault
    | fault run => exact hmany _ _ (.faults (hp.fault_at run ht))

end

end Parser

/-! ## Grammars -/

namespace Rules

variable {S : Scope} {a : Alphabet} {α : Type}

/-- **A repetition is greedy iteration.** From a place within the input it applies its operand at most
once more than there are units left, as a repetition without a limit would. It ends with the values of
a chain of places at whose end the operand fails, committed where the operand commits at the end of a
chain, at fault where the operand takes nothing there or is at fault itself, and never recoverably. It
is one round and a repetition, or nothing; and at least one is one round and a repetition, whether or
not the first round takes anything. -/
theorem parser_many (rules : Rules S) (p : Grammar S a α) (s : State a)
    (hs : s.index ≤ s.input.length) :
    ((∃ states outcome, (rules.parser p).Repeats s states outcome) ∧
      ∀ states outcome, (rules.parser p).Repeats s states outcome →
        states.length ≤ s.input.length - s.index + 1 ∧
          rules.parser (.many p) s = outcome.backTo s.index) ∧
    (∀ xs j, (∃ t, rules.parser (.many p) s = .ok xs t ∧ t.index = j) ↔
      (rules.parser p).Steps s.input s.index xs j ∧
        ∃ u, rules.parser p { input := s.input, index := j } = .fail .recoverable u) ∧
    ((∃ t, rules.parser (.many p) s = .fail .committed t ∧ t.index = s.index) ↔
      ∃ xs k, (rules.parser p).Steps s.input s.index xs k ∧
        ∃ u, rules.parser p { input := s.input, index := k } = .fail .committed u) ∧
    (∀ f, rules.parser (.many p) s = .fault f ↔
      ∃ xs k, (rules.parser p).Steps s.input s.index xs k ∧
        (rules.parser p).BreaksDown s.input k f) ∧
    (∀ t, rules.parser (.many p) s ≠ .fail .recoverable t) ∧
    rules.parser (.many p) s =
      rules.parser (.orElse (.map (fun pair => pair.1 :: pair.2) (.seq p (.many p))) (.pure [])) s ∧
    rules.parser (.oneOrMore p) s =
      rules.parser (.map (fun pair => pair.1 :: pair.2) (.seq p (.many p))) s ∧
    ∀ x t, rules.parser p s = .ok x t →
      ∀ states outcome, (rules.parser p).Repeats t states outcome →
        rules.parser (.oneOrMore p) s = (outcome.map (x :: ·)).backTo s.index := by
  have hp : (rules.parser p).HistoryFree := rules.parser_withPast p
  have hb : (rules.parser p).Backtracks := rules.parser_backtracks p
  have hround : rules.parser (.map (fun pair => pair.1 :: pair.2) (.seq p (.many p))) =
      Parser.seqWith List.cons (rules.parser p) (Parser.many (rules.parser p)) :=
    Parser.map_seqWith _ _ _ _
  have hsettles := Parser.settles_within hb hs
  refine ⟨⟨Parser.exists_repeats hb s hs, ?_⟩, Parser.many_ok_iff hp hb hsettles,
    Parser.many_committed_iff hp hb hsettles, Parser.many_fault_iff hp hb hsettles,
    Parser.many_ne_recoverable _ s, ?_, ?_, ?_⟩
  · exact fun states outcome h => ⟨h.length_le hb hs, Parser.many_of_repeats hb hs h⟩
  · have hunfold : Parser.many (rules.parser p) s = _ := Parser.many_unfold hp hb hs
    rw [← hround] at hunfold
    exact hunfold
  · exact (congrFun hround s).symm
  · intro x t hx states outcome hrepeats
    have hrest := Parser.many_of_repeats hb ((hb.ok hx).within hs) hrepeats
    have hsome : rules.parser (.oneOrMore p) s = _ :=
      Parser.seqWith_of_ok (f := List.cons) (q := Parser.many (rules.parser p)) hx
    rw [hsome, hrest, Parser.backTo_map_backTo]

end Rules

section

/-- Two pairs and half of a third one. -/
def brokenPairs : State .text :=
  { input := ['a', 'b', 'a', 'b', 'a', 'c'] }

/-- Two pairs are taken in front of a `d`; in front of half a pair they are given up. -/
theorem strictPair_repeated :
    twoPairs.index ≤ twoPairs.input.length ∧ brokenPairs.index ≤ brokenPairs.input.length ∧
    (∃ t, closedRules.parser (.many strictPair) twoPairs = .ok ['b', 'b'] t ∧ t.index = 4) ∧
    ∃ t, closedRules.parser (.many strictPair) brokenPairs = .fail .committed t ∧ t.index = 0 := by
  have htwo : twoPairs.index ≤ twoPairs.input.length := by decide
  have hbroken : brokenPairs.index ≤ brokenPairs.input.length := by decide
  have hsteps : ∀ rest : List Char,
      (closedRules.parser strictPair).Steps ('a' :: 'b' :: 'a' :: 'b' :: rest) 0 ['b', 'b'] 4 := by
    intro rest
    exact .step rfl (show 0 < 2 by decide) (.step rfl (show 2 < 4 by decide) (.none 4))
  obtain ⟨-, hok, -⟩ := closedRules.parser_many strictPair twoPairs htwo
  obtain ⟨-, -, hcommitted, -⟩ := closedRules.parser_many strictPair brokenPairs hbroken
  exact ⟨htwo, hbroken, (hok _ 4).mpr ⟨hsteps _, _, rfl⟩,
    hcommitted.mpr ⟨_, 4, hsteps _, _, rfl⟩⟩

end

end Descent
