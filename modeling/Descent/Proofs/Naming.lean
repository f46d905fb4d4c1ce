import Descent.Proofs.Backtracking
import Descent.Proofs.Factoring
import Descent.Proofs.Pruning
import Descent.Proofs.Recorded

/-!
A name takes the place of what failed at the place, and of nothing else.

`label` puts the failure kept so far away, runs its operand and puts the two together. What it does in
between is said by how the operand ends without an earlier failure (`Outcome.named`,
`Parser.unwatched_label`): a success and a failure further on are as they were, and instead of any
other failure there is the name. So of two names around a parser only the outer one can be seen
(`Outcome.named_named`), and what was kept before comes in only at the end, in front
(`Rules.label_replaces`).
-/

namespace Descent

variable {a : Alphabet} {α : Type}

theorem State.failedBeyond_iff {s : State a} {i : Nat} :
    s.failedBeyond i = true ↔ ∃ failure, s.failure = some failure ∧ i < failure.position := by
  unfold failedBeyond
  cases s.failure <;> simp

/-! ## What a name changes -/

/-- How a named parser ends from a state, by how its operand ended without an earlier failure. -/
def Outcome.named (name : String) (s : State a) : Outcome a α → Outcome a α
  | ok x t => ok x (t.absorb s.failure)
  | fail severity t =>
    let named := if t.failedBeyond s.index then t
      else (t.dropFailure.restore s.index).expect [name]
    fail severity (named.absorb s.failure)
  | fault f => fault f

namespace Outcome

variable {name : String} {s t : State a} {severity : Severity}

theorem named_beyond (h : t.failedBeyond s.index = true) :
    (fail severity t : Outcome a α).named name s = fail severity (t.absorb s.failure) := by
  simp only [named, if_pos h]

theorem named_here (h : ¬ t.failedBeyond s.index = true) :
    (fail severity t : Outcome a α).named name s =
      fail severity (((t.dropFailure.restore s.index).expect [name]).absorb s.failure) := by
  simp only [named, if_neg h]

/-- Only the place and the failure of the first state count. -/
theorem named_congr (hindex : s.index = t.index) (hfailure : s.failure = t.failure)
    (outcome : Outcome a α) : outcome.named name s = outcome.named name t := by
  unfold named
  rw [hindex, hfailure]

theorem unwatched_named (outcome : Outcome a α) :
    (outcome.named name s).unwatched = outcome.unwatched.named name s := by
  cases outcome with
  | ok x t => rfl
  | fail severity t =>
    by_cases hbeyond : t.failedBeyond s.index = true
    · rw [named_beyond hbeyond]
      exact (named_beyond (t := t.unwatched) hbeyond).symm
    · rw [named_here hbeyond]
      exact (named_here (t := t.unwatched) hbeyond).symm
  | fault f => rfl

theorem unwatched_note (outcome : Outcome a α) (event : Trace.Event) :
    (outcome.mapState (·.note event)).unwatched = outcome.unwatched := by
  cases outcome <;> rfl

/-- A name inside a name is not seen: where it is put, the outer one is put in its place. -/
theorem named_named (inner outer : String) (s : State a) (outcome : Outcome a α) :
    (outcome.named inner s.dropFailure).named outer s = outcome.named outer s := by
  have habsorb : ∀ t : State a, t.absorb none = t := fun t => by
    simp only [State.absorb, Failure.none_furthest]
  cases outcome with
  | ok x t =>
    show ok x ((t.absorb none).absorb s.failure) = ok x (t.absorb s.failure)
    rw [habsorb]
  | fail severity t =>
    by_cases hbeyond : t.failedBeyond s.index = true
    · have hinner : (fail severity t : Outcome a α).named inner s.dropFailure = fail severity t := by
        rw [named_beyond (s := s.dropFailure) hbeyond]
        exact congrArg _ (habsorb t)
      rw [hinner]
    · have hinner : (fail severity t : Outcome a α).named inner s.dropFailure =
          fail severity ((t.dropFailure.restore s.index).expect [inner]) := by
        rw [named_here (s := s.dropFailure) hbeyond]
        exact congrArg _ (habsorb _)
      have hhere : ¬ ((t.dropFailure.restore s.index).expect [inner]).failedBeyond s.index =
          true := by
        intro h
        obtain ⟨failure, ⟨⟩, hlt⟩ := State.failedBeyond_iff.mp h
        exact absurd hlt (Nat.lt_irrefl _)
      rw [hinner, named_here hhere, named_here hbeyond]
      rfl
  | fault f => rfl

theorem exists_of_unwatched_ok {outcome : Outcome a α} {x : α} (h : outcome.unwatched = .ok x t) :
    ∃ u, outcome = .ok x u ∧ u.index = t.index ∧ u.mark = t.mark ∧ u.failure = t.failure := by
  cases outcome with
  | ok y u => cases h; exact ⟨u, rfl, rfl, rfl, rfl⟩
  | fail severity u => cases h
  | fault f => cases h

theorem exists_of_unwatched_fail {outcome : Outcome a α} (h : outcome.unwatched = .fail severity t) :
    ∃ u, outcome = .fail severity u ∧ u.index = t.index ∧ u.mark = t.mark ∧
      u.failure = t.failure := by
  cases outcome with
  | ok x u => cases h
  | fail severity u => cases h; exact ⟨u, rfl, rfl, rfl, rfl⟩
  | fault f => cases h

theorem eq_fault_of_unwatched {outcome : Outcome a α} {f : Fault} (h : outcome.unwatched = .fault f) :
    outcome = .fault f := by
  cases outcome with
  | ok x u => cases h
  | fail severity u => cases h
  | fault g => exact h

end Outcome

namespace Parser

/-- A parser that does not ask what those who watch have seen. -/
def Blind (p : Parser a α) : Prop :=
  ∀ s t, s.unwatched = t.unwatched → (p s).unwatched = (p t).unwatched

variable {p : Parser a α}

theorem label_apply (name : String) (p : Parser a α) (s : State a) :
    label name p s =
      ((p (s.dropFailure.note (.enter name))).mapState (·.note .leave)).named name s := by
  unfold label
  cases p (s.dropFailure.note (.enter name)) <;> rfl

/-- Events apart, a named parser ends as its operand does without an earlier failure, but for what
the name changes. -/
theorem unwatched_label (hp : p.Blind) (name : String) (s : State a) :
    (label name p s).unwatched = (p s.dropFailure).unwatched.named name s := by
  rw [label_apply, Outcome.unwatched_named, Outcome.unwatched_note,
    hp (s.dropFailure.note (.enter name)) s.dropFailure rfl]

theorem Blind.label (hp : p.Blind) (name : String) : (label name p).Blind := by
  intro s t h
  have hindex : s.unwatched.index = t.unwatched.index := by rw [h]
  have hfailure : s.unwatched.failure = t.unwatched.failure := by rw [h]
  have hdrop : s.dropFailure.unwatched = t.dropFailure.unwatched := congrArg State.dropFailure h
  rw [unwatched_label hp, unwatched_label hp, hp _ _ hdrop]
  exact Outcome.named_congr hindex hfailure _

/-- Of two names only the outer one can be seen. -/
theorem unwatched_label_label (hp : p.Blind) (inner outer : String) (s : State a) :
    (label outer (label inner p) s).unwatched = (label outer p s).unwatched := by
  rw [unwatched_label (hp.label inner), unwatched_label hp inner, unwatched_label hp outer]
  exact Outcome.named_named inner outer s _

/-! ## Parsers that may be named -/

/-- A parser from outside that goes back to its place when it fails, leaves the failure on record as
it is and does not ask those who watch. -/
structure RecordsNothing (p : Parser a α) : Prop where
  blind : p.Blind
  ok {s t : State a} {x : α} (h : p s = .ok x t) : t.failure = s.failure
  fail {s t : State a} {severity : Severity} (h : p s = .fail severity t) :
    t.input = s.input ∧ t.index = s.index ∧ t.failure = s.failure

/-- The failure kept so far is put before what the parser leaves without it. -/
def AddsFailures (p : Parser a α) : Prop :=
  ∀ s, (p s.dropFailure).Ends fun t => (p s).Ends fun u =>
    u.failure = Failure.furthest s.failure t.failure

theorem HistoryFree.addsFailures (hp : p.HistoryFree) : p.AddsFailures := by
  intro s
  have hpast : s = s.dropFailure.withPast { failure := s.failure } := by
    simp only [State.withPast, State.dropFailure, State.absorb, Failure.furthest_none,
      Nat.zero_max, List.append_nil]
  have hs := hp s.dropFailure { failure := s.failure }
  rw [← hpast] at hs
  rw [hs]
  cases p s.dropFailure with
  | ok x t | fail severity t => exact rfl
  | fault f => trivial

theorem RecordsNothing.ends (hp : p.RecordsNothing) (s : State a) :
    (p s).Ends fun t => t.failure = s.failure := by
  cases h : p s with
  | ok x t => exact hp.ok h
  | fail severity t => exact (hp.fail h).2.2
  | fault f => trivial

theorem RecordsNothing.addsFailures (hp : p.RecordsNothing) : p.AddsFailures := by
  intro s
  refine (hp.ends s.dropFailure).imp fun t ht => (hp.ends s).imp fun u hu => ?_
  rw [ht, hu]
  rfl

end Parser

variable {S : Scope}

/-- A parser that comes of a grammar, or one from outside that records nothing. -/
inductive Rules.Admits (rules : Rules S) : {a : Alphabet} → {α : Type} → Parser a α → Prop where
  | grammar {a : Alphabet} {α : Type} (g : Grammar S a α) : Admits rules (rules.parser g)
  | custom {a : Alphabet} {α : Type} {p : Parser a α} (h : p.RecordsNothing) : Admits rules p

namespace Rules

variable {rules : Rules S} {p : Parser a α}

theorem Admits.blind (hp : rules.Admits p) : p.Blind := by
  cases hp with
  | grammar g =>
    have hg : (rules.parser g).HistoryFree := rules.parser_withPast g
    exact fun s t => hg.unwatched
  | custom h => exact h.blind

theorem Admits.addsFailures (hp : rules.Admits p) : p.AddsFailures := by
  cases hp with
  | grammar g =>
    have hg : (rules.parser g).HistoryFree := rules.parser_withPast g
    exact hg.addsFailures
  | custom h => exact h.addsFailures

theorem Admits.fail (hp : rules.Admits p) {s t : State a} {severity : Severity}
    (h : p s = .fail severity t) : t.input = s.input ∧ t.index = s.index := by
  cases hp with
  | grammar g => exact (rules.parser_backtracks g).fail h
  | custom hcustom => exact ⟨(hcustom.fail h).1, (hcustom.fail h).2.1⟩

section

variable {s t : State a} {x : α} {severity : Severity}

/-- What a success leaves is put behind the earlier failure. -/
theorem label_of_ok (hp : rules.Admits p) (name : String) (h : p s.dropFailure = .ok x t) :
    ∃ u, Parser.label name p s = .ok x u ∧ u.index = t.index ∧ u.mark = t.mark ∧
      u.failure = Failure.furthest s.failure t.failure := by
  have hlabel := Parser.unwatched_label hp.blind name s
  rw [h] at hlabel
  exact Outcome.exists_of_unwatched_ok hlabel

/-- A failure further on is put behind the earlier one. -/
theorem label_of_beyond (hp : rules.Admits p) (name : String)
    (h : p s.dropFailure = .fail severity t) (hbeyond : t.failedBeyond s.index = true) :
    ∃ u, Parser.label name p s = .fail severity u ∧ u.index = s.index ∧ u.mark = t.mark ∧
      u.failure = Failure.furthest s.failure t.failure := by
  have hlabel := Parser.unwatched_label hp.blind name s
  rw [h, ← Outcome.unwatched_named, Outcome.named_beyond hbeyond] at hlabel
  obtain ⟨u, hu, hindex, hmark, hfailure⟩ := Outcome.exists_of_unwatched_fail hlabel
  exact ⟨u, hu, hindex.trans (hp.fail h).2, hmark, hfailure⟩

/-- In place of any other failure there is the name. -/
theorem label_of_not_beyond (hp : rules.Admits p) (name : String)
    (h : p s.dropFailure = .fail severity t) (hbeyond : ¬ t.failedBeyond s.index = true) :
    ∃ u, Parser.label name p s = .fail severity u ∧ u.index = s.index ∧ u.mark = t.mark ∧
      u.failure = Failure.furthest s.failure (some ⟨s.index, [name], none, s.encountered⟩) := by
  have hlabel := Parser.unwatched_label hp.blind name s
  rw [h, ← Outcome.unwatched_named, Outcome.named_here hbeyond] at hlabel
  obtain ⟨u, hu, hindex, hmark, hfailure⟩ := Outcome.exists_of_unwatched_fail hlabel
  have hinput : t.input = s.input := (hp.fail h).1
  have hencountered : (t.restore s.index).encountered = s.encountered :=
    State.encountered_congr hinput rfl
  refine ⟨u, hu, hindex, hmark, ?_⟩
  rw [← hencountered]
  exact hfailure

end

/-- **A name replaces the failure at the place.** Let a parser be run without an earlier failure. If
it succeeds, or fails and leaves a failure further on, its failure is put behind the earlier one, just
as the parser itself does with it. If it fails and leaves none, or one that is not further on, what is
put there is a failure at the place that expects the name, and nothing of the parser's own remains.
Value, severity and mark are those of the parser. Of two names around a parser only the outer one can
be seen. -/
theorem label_replaces (rules : Rules S) {p : Parser a α} (hp : rules.Admits p) (name : String)
    (s : State a) :
    (∀ x t, p s.dropFailure = .ok x t →
      ∃ u, Parser.label name p s = .ok x u ∧ u.index = t.index ∧ u.mark = t.mark ∧
        u.failure = Failure.furthest s.failure t.failure) ∧
    (∀ severity t, p s.dropFailure = .fail severity t →
      ∃ u, Parser.label name p s = .fail severity u ∧ u.index = s.index ∧ u.mark = t.mark ∧
        ((∃ failure, t.failure = some failure ∧ s.index < failure.position) →
          u.failure = Failure.furthest s.failure t.failure) ∧
        ((∀ failure, t.failure = some failure → failure.position ≤ s.index) →
          u.failure =
            Failure.furthest s.failure (some ⟨s.index, [name], none, s.encountered⟩))) ∧
    (∀ f, p s.dropFailure = .fault f → Parser.label name p s = .fault f) ∧
    ((p s.dropFailure).Ends fun t => (p s).Ends fun u =>
      u.failure = Failure.furthest s.failure t.failure) ∧
    ∀ inner outer, (Parser.label outer (Parser.label inner p) s).unwatched =
      (Parser.label outer p s).unwatched := by
  have hlabel := Parser.unwatched_label hp.blind name s
  refine ⟨?_, ?_, ?_, hp.addsFailures s,
    fun inner outer => Parser.unwatched_label_label hp.blind inner outer s⟩
  · intro x t h
    rw [h] at hlabel
    exact Outcome.exists_of_unwatched_ok hlabel
  · intro severity t h
    by_cases hbeyond : t.failedBeyond s.index = true
    · obtain ⟨u, hu, hindex, hmark, hfailure⟩ := label_of_beyond hp name h hbeyond
      obtain ⟨further, hfurther, hlt⟩ := State.failedBeyond_iff.mp hbeyond
      exact ⟨u, hu, hindex, hmark, fun _ => hfailure,
        fun hle => absurd hlt (Nat.not_lt.mpr (hle further hfurther))⟩
    · obtain ⟨u, hu, hindex, hmark, hfailure⟩ := label_of_not_beyond hp name h hbeyond
      exact ⟨u, hu, hindex, hmark,
        fun hfurther => absurd (State.failedBeyond_iff.mpr hfurther) hbeyond, fun _ => hfailure⟩
  · intro f h
    rw [h] at hlabel
    exact Outcome.eq_fault_of_unwatched hlabel

end Rules

section

/-- A parser from outside that gives up without a word. -/
theorem silent_recordsNothing (severity : Severity) :
    (Parser.silent severity : Parser a α).RecordsNothing where
  blind s t h := congrArg (Outcome.fail severity) h
  ok h := nomatch h
  fail h := by cases h; exact ⟨rfl, rfl, rfl⟩

/-- Half a pair, after something else has been tried in its place. -/
def triedPair : State .text :=
  { input := ['a', 'c'], failure := some ⟨0, ["digit"], none, .unit "a"⟩ }

/-- Half a pair fails further on, and the name is not needed; what gives up without a word is given
the name, beside what was expected before. -/
theorem triedPair_label :
    (∃ u, closedRules.parser (.label "pair" strictPair) triedPair = .fail .committed u ∧
      u.failure = some ⟨1, ["b"], none, .unit "c"⟩) ∧
    ∃ u, Parser.label "end" (Parser.silent .committed : Parser .text Unit) triedPair =
        .fail .committed u ∧
      u.failure = some ⟨0, ["digit", "end"], none, .unit "a"⟩ := by
  have hsilent : closedRules.Admits (Parser.silent .committed : Parser .text Unit) :=
    .custom (silent_recordsNothing .committed)
  obtain ⟨-, hpair, -⟩ := closedRules.label_replaces (.grammar strictPair) "pair" triedPair
  obtain ⟨-, hend, -⟩ := closedRules.label_replaces hsilent "end" triedPair
  obtain ⟨u, hu, -, -, hfurther, -⟩ := hpair _ _ rfl
  obtain ⟨v, hv, -, -, -, hnamed⟩ := hend _ _ rfl
  exact ⟨⟨u, hu, hfurther ⟨_, rfl, by decide⟩⟩, v, hv, hnamed nofun⟩

end

end Descent
