import Descent.Proofs.Backtracking
import Descent.Proofs.Pruning
import Descent.Proofs.Watch

/-!
A commitment cannot be undone.

As soon as one application ends committed, all that still happens in the run is that the
applications around it end committed too, up to the run itself (`Rules.parser_stays_committed`).
Commitments inside a look are asides and do not count.
-/

namespace Descent

/-- An application ends committed. -/
abbrev Moment.commits : Moment := .ends (.failure .committed)

theorem Outcome.exists_of_ending {a : Alphabet} {α : Type} {outcome : Outcome a α}
    {severity : Severity} (h : outcome.ending = .failure severity) :
    ∃ t, outcome = .fail severity t := by
  cases outcome with
  | ok x t => cases h
  | fail severity' t => cases h; exact ⟨t, rfl⟩
  | fault g => cases h

namespace Watched

variable {a b : Alphabet} {α β : Type}

/-- After a commitment nothing happens but commitments, and the run ends committed. -/
structure Sealed (run : Watched a α) : Prop where
  order : run.log.Pairwise fun earlier later => earlier = .commits → later = .commits
  ending : .commits ∈ run.log → run.outcome.ending = .failure .committed

/-- The run is committed and has nothing more to do. -/
structure GivesUp (run : Watched a α) : Prop where
  log : run.log = []
  ending : run.outcome.ending = .failure .committed

theorem Sealed.of_not_mem {run : Watched a α} (h : Moment.commits ∉ run.log) : run.Sealed where
  order := List.pairwise_of_forall_mem_list
    fun _ hearlier _ _ hcommits => absurd (hcommits ▸ hearlier) h
  ending hmem := absurd hmem h

theorem Sealed.of_log_nil {run : Watched a α} (h : run.log = []) : run.Sealed :=
  .of_not_mem (h ▸ List.not_mem_nil)

/-- The step of all that follows: a sealed run may be followed by a sealed one that gives up after a
commitment. -/
theorem Sealed.next {first : Watched b β} {rest : Outcome b β → Watched a α}
    (hfirst : first.Sealed) (hcommitted : ∀ t, (rest (.fail .committed t)).GivesUp)
    (hrest : (rest first.outcome).Sealed) : (first.next rest).Sealed := by
  have hstop : Moment.commits ∈ first.log → (rest first.outcome).GivesUp := by
    intro hmem
    obtain ⟨t, ht⟩ := Outcome.exists_of_ending (hfirst.ending hmem)
    rw [ht]
    exact hcommitted t
  constructor
  · refine List.pairwise_append.mpr ⟨hfirst.order, hrest.order, ?_⟩
    rintro earlier hearlier later hlater rfl
    rw [(hstop hearlier).log] at hlater
    cases hlater
  · intro hmem
    rcases List.mem_append.mp hmem with hmem | hmem
    · exact (hstop hmem).ending
    · exact hrest.ending hmem

end Watched

namespace Watcher

variable {a b : Alphabet} {α β γ : Type}

/-- All runs of the parser are sealed. -/
def Sealed (p : Watcher a α) : Prop :=
  ∀ s, (p s).Sealed

namespace Sealed

theorem leaf (p : Parser a α) : (Watcher.leaf p).Sealed :=
  fun _ => .of_log_nil rfl

/-- An application adds how it ends, and that is committed if anything inside was. -/
theorem applied {inside : Watcher a α} (h : inside.Sealed) : inside.applied.Sealed := by
  intro s
  have hinside := h s
  constructor
  · refine List.pairwise_append.mpr ⟨List.pairwise_cons.mpr ⟨nofun, hinside.order⟩,
      List.pairwise_singleton _ _, ?_⟩
    rintro earlier hearlier later hlater rfl
    rw [List.mem_singleton] at hlater
    rcases List.mem_cons.mp hearlier with hbegins | hearlier
    · cases hbegins
    · rw [hlater, hinside.ending hearlier]
  · intro hmem
    rcases List.mem_append.mp hmem with hmem | hmem
    · rcases List.mem_cons.mp hmem with hbegins | hmem
      · cases hbegins
      · exact hinside.ending hmem
    · rw [List.mem_singleton] at hmem
      exact (Moment.ends.inj hmem).symm

/-- A look is sealed whatever becomes of it, since all that happens in it are asides. -/
theorem look {combine : Parser b β → Parser a α} {start : State a → State b} (p : Watcher b β) :
    (Watcher.once combine start p.asides).Sealed := by
  intro s
  refine .of_not_mem fun hmem => ?_
  unfold Watcher.once Watched.next at hmem
  rw [List.append_nil] at hmem
  obtain ⟨moment, -, haside⟩ := List.mem_map.mp hmem
  cases haside

theorem once {combine : Parser b β → Parser a α} {start : State a → State b} {p : Watcher b β}
    (hp : p.Sealed) (hcombine : ∀ s t, (combine (fun _ => .fail .committed t) s).ending =
      .failure .committed) : (Watcher.once combine start p).Sealed := by
  intro s
  refine (hp (start s)).next ?_ (.of_log_nil rfl)
  exact fun t => ⟨rfl, hcombine s t⟩

theorem seqWith (f : α → β → γ) {p : Watcher a α} {q : Watcher a β} (hp : p.Sealed)
    (hq : q.Sealed) : (Watcher.seqWith f p q).Sealed := by
  intro s
  refine (hp s).next (fun _ => ⟨rfl, rfl⟩) ?_
  cases (p s).outcome with
  | ok x t => exact (hq t).next (fun _ => ⟨rfl, rfl⟩) (.of_log_nil rfl)
  | fail severity t => exact .of_log_nil rfl
  | fault g => exact .of_log_nil rfl

theorem orElse {p q : Watcher a α} (hp : p.Sealed) (hq : q.Sealed) :
    (Watcher.orElse p q).Sealed := by
  intro s
  refine (hp s).next (fun _ => ⟨rfl, rfl⟩) ?_
  cases (p s).outcome with
  | ok x t => exact .of_log_nil rfl
  | fail severity t =>
    cases severity with
    | recoverable => exact hq (t.restore s.index)
    | committed => exact .of_log_nil rfl
  | fault g => exact .of_log_nil rfl

theorem iterate {p : Watcher a α} (hp : p.Sealed) (n : Nat) : (Watcher.iterate p n).Sealed := by
  induction n with
  | zero => exact fun _ => .of_log_nil rfl
  | succ n ih =>
    intro s
    unfold Watcher.iterate
    refine (hp s).next (fun _ => ⟨rfl, rfl⟩) ?_
    cases (p s).outcome with
    | ok x t =>
      by_cases hindex : t.index = s.index
      · simp only [if_pos hindex]
        exact .of_log_nil rfl
      · simp only [if_neg hindex]
        exact (ih t).next (fun _ => ⟨rfl, rfl⟩) (.of_log_nil rfl)
    | fail severity t => cases severity <;> exact .of_log_nil rfl
    | fault g => exact .of_log_nil rfl

theorem many {p : Watcher a α} (hp : p.Sealed) : (Watcher.many p).Sealed := by
  intro s
  exact (hp.iterate _ s).next (fun _ => ⟨rfl, rfl⟩) (.of_log_nil rfl)

theorem staged {grammar : Watcher .tokens α} {lexer : Watcher .text (List Token)}
    (hgrammar : grammar.Sealed) (hlexer : lexer.Sealed) :
    (Watcher.staged grammar lexer).Sealed := by
  intro s
  refine (hlexer s.dropFailure).next (fun _ => ⟨rfl, rfl⟩) ?_
  cases (lexer s.dropFailure).outcome with
  | ok tokens t => exact (hgrammar _).next (fun _ => ⟨rfl, rfl⟩) (.of_log_nil rfl)
  | fail severity t => exact .of_log_nil rfl
  | fault g => exact .of_log_nil rfl

theorem terminal (lexicon : Lexicon) (words : Watcher .text Unit) :
    (Watcher.terminal lexicon words).Sealed := by
  intro s
  unfold Watcher.terminal
  by_cases hs : s.input.length < s.index ∧ lexicon.operators ≠ []
  · rw [if_pos hs]; exact .of_log_nil rfl
  · rw [if_neg hs]; exact look words s

end Sealed

end Watcher

/-! ## Grammars -/

variable {S : Scope} {a : Alphabet} {α : Type}

theorem Grammar.watch_sealed {resolve : WatchedResolver S} (hresolve : ∀ x, (resolve x).Sealed)
    (g : Grammar S a α) : (g.watch resolve).Sealed := by
  induction g with
  | map f p ih => exact (ih.once fun _ _ => rfl).applied
  | seqWith f p q ihp ihq => exact (Watcher.Sealed.seqWith f ihp ihq).applied
  | orElse p q ihp ihq => exact (ihp.orElse ihq).applied
  | atomic p ih => exact (ih.once fun _ _ => rfl).applied
  | peek p ih => exact (ih.once fun _ _ => rfl).applied
  | notFollowedBy p name _ => exact (Watcher.Sealed.look _).applied
  | many p ih => exact ih.many.applied
  | label name p ih => exact (ih.once fun _ _ => rfl).applied
  | traced name render p ih => exact (ih.once fun _ _ => rfl).applied
  | spanned f p ih => exact (ih.once fun _ _ => rfl).applied
  | ref x => exact (hresolve x).applied
  | staged grammar lexer ihgrammar ihlexer => exact (ihgrammar.staged ihlexer).applied
  | terminal lexicon words _ => exact (Watcher.Sealed.terminal lexicon _).applied
  | _ => exact (Watcher.Sealed.leaf _).applied

theorem Bindings.watcher_sealed (bindings : Bindings S) (depth : Nat) (x : S.Ref) :
    (bindings.watcher depth x).Sealed := by
  induction depth generalizing x with
  | zero => exact .leaf _
  | succ depth ih =>
    unfold watcher
    cases bindings.lookup? x with
    | none => exact .leaf _
    | some g => exact g.watch_sealed ih

/-- **A commitment cannot be undone.** A watched run is the run itself, and from the first
application on that ends committed no parser is applied in it: all applications around that one end
committed, the run among them, and its index is back where it began. -/
theorem Rules.parser_stays_committed (rules : Rules S) (g : Grammar S a α) (s : State a) :
    (rules.watch g s).outcome = rules.parser g s ∧
    ∀ before after, (rules.watch g s).log = before ++ .ends (.failure .committed) :: after →
      (∀ moment ∈ after, moment = .ends (.failure .committed)) ∧
      ∃ t, rules.parser g s = .fail .committed t ∧ t.index = s.index := by
  have hsealed := g.watch_sealed (rules.bindings.watcher_sealed rules.depth) s
  have houtcome := rules.watch_outcome g s
  refine ⟨houtcome, fun before after hlog => ⟨?_, ?_⟩⟩
  · have horder : (before ++ Moment.commits :: after).Pairwise _ := hlog ▸ hsealed.order
    intro moment hmoment
    exact (List.pairwise_cons.mp (List.pairwise_append.mp horder).2.1).1 moment hmoment rfl
  · have hmem : Moment.commits ∈ (rules.watch g s).log :=
      hlog ▸ List.mem_append_right before (.head after)
    obtain ⟨t, ht⟩ := Outcome.exists_of_ending (hsealed.ending hmem)
    have hrun : rules.parser g s = .fail .committed t := houtcome.symm.trans ht
    exact ⟨t, hrun, ((rules.parser_backtracks g).fail hrun).2⟩

section

/-- A strict pair, or an `a` and a `c`; but the second is never tried after an `a`. -/
def pairOrOther : Grammar closedScope .text Char :=
  .orElse (.label "pair" strictPair) (.skipThen (letter 'a') (letter 'c'))

/-- The commitment of the pair goes through the name and the choice. -/
theorem pairOrOther_stays_committed :
    (closedRules.watch pairOrOther { input := ['a', 'c'] }).log =
      [.begins, .begins, .begins, .begins, .begins, .ends .success, .begins,
        .ends (.failure .recoverable), .ends (.failure .recoverable)] ++
        .ends (.failure .committed) ::
          [.ends (.failure .committed), .ends (.failure .committed)] ∧
    ∃ t, closedRules.parser pairOrOther { input := ['a', 'c'] } = .fail .committed t ∧
      t.index = 0 := by
  have hlog : (closedRules.watch pairOrOther { input := ['a', 'c'] }).log =
      [.begins, .begins, .begins, .begins, .begins, .ends .success, .begins,
        .ends (.failure .recoverable), .ends (.failure .recoverable)] ++
        .ends (.failure .committed) ::
          [.ends (.failure .committed), .ends (.failure .committed)] := by
    decide +kernel
  exact ⟨hlog, ((closedRules.parser_stays_committed pairOrOther _).2 _ _ hlog).2⟩

end

end Descent
