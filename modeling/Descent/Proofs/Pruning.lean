import Descent.Grammar.Combinator
import Descent.Proofs.Erasure
import Descent.Proofs.History

/-!
Commitment only prunes.

Run a grammar and its erasure side by side. As long as the first has not ended in a committed
failure the two states differ in nothing but the mark, and the mark is only ever looked at by
`atomic`, which the second has none of. So the two end alike unless the first one ends committed
(`Rules.parser_erased`).

Two parsers turn a committed failure of their operand into something else: `notFollowedBy` and
`terminal`. In those operands there must be no `atomic`, or pruning is seen outside
(see the example at the end).
-/

namespace Descent

/-! ## Marks -/

/-- The state with another mark. -/
def State.withMark {a : Alphabet} (s : State a) (mark : Nat) : State a :=
  { s with mark }

/-- The outcome with the mark forgotten. -/
def Outcome.unmarked {a : Alphabet} {α : Type} (outcome : Outcome a α) : Outcome a α :=
  outcome.mapState (·.withMark 0)

namespace Parser

variable {a : Alphabet} {α β γ : Type}

/-- The mark a run starts with has no say in anything but the mark it ends with. -/
theorem HistoryFree.withMark {p : Parser a α} (hp : p.HistoryFree) (s : State a) (mark : Nat) :
    ∃ mark', p (s.withMark mark) = (p s).mapState (·.withMark mark') := by
  -- both states are the one without a mark, each with its mark for a past
  have hpast : ∀ mark, s.withMark mark = (s.withMark 0).withPast { mark } := by
    intro mark
    simp only [State.withMark, State.withPast, State.absorb, Failure.none_furthest, Nat.max_zero,
      List.append_nil]
  have hs := hp (s.withMark 0) { mark := s.mark }
  have hmark := hp (s.withMark 0) { mark }
  rw [← hpast] at hs hmark
  have hself : s.withMark s.mark = s := rfl
  rw [hself] at hs
  rw [hs, hmark]
  cases p (s.withMark 0) with
  | ok x t => exact ⟨max mark t.mark, rfl⟩
  | fail severity t => exact ⟨max mark t.mark, rfl⟩
  | fault g => exact ⟨0, rfl⟩

/-! ## Pruning -/

/-- The first parser ends committed or does what the second one does from the same state, whatever
the mark. -/
def Prunes (p p' : Parser a α) : Prop :=
  ∀ s mark, (∃ t, p s = .fail .committed t) ∨
    ∃ mark', p' (s.withMark mark) = (p s).mapState (·.withMark mark')

namespace Prunes

section

variable {p p' : Parser a α} {s t : State a} {x : α} {severity : Severity} {g : Fault}

theorem ok (hp : p.Prunes p') (mark : Nat) (h : p s = .ok x t) :
    ∃ mark', p' (s.withMark mark) = .ok x (t.withMark mark') := by
  rcases hp s mark with ⟨u, hu⟩ | ⟨mark', h'⟩
  · rw [h] at hu; cases hu
  · exact ⟨mark', by rw [h', h]; rfl⟩

theorem fail (hp : p.Prunes p') (mark : Nat) (h : p s = .fail severity t) :
    severity = .committed ∨
      ∃ mark', p' (s.withMark mark) = .fail severity (t.withMark mark') := by
  rcases hp s mark with ⟨u, hu⟩ | ⟨mark', h'⟩
  · rw [h] at hu; cases hu; exact .inl rfl
  · exact .inr ⟨mark', by rw [h', h]; rfl⟩

theorem recoverable (hp : p.Prunes p') (mark : Nat) (h : p s = .fail .recoverable t) :
    ∃ mark', p' (s.withMark mark) = .fail .recoverable (t.withMark mark') :=
  (hp.fail mark h).resolve_left nofun

theorem fault (hp : p.Prunes p') (mark : Nat) (h : p s = .fault g) :
    p' (s.withMark mark) = .fault g := by
  rcases hp s mark with ⟨u, hu⟩ | ⟨mark', h'⟩
  · rw [h] at hu; cases hu
  · rw [h', h]; rfl

/-- A parser that has no use for its past prunes itself. -/
theorem refl (hp : p.HistoryFree) : p.Prunes p :=
  fun s mark => .inr (hp.withMark s mark)

end

/-! ## Sequence and choice -/

variable {p p' : Parser a α}

theorem map (f : α → β) (hp : p.Prunes p') : (Parser.map f p).Prunes (Parser.map f p') := by
  intro s mark
  rw [map_apply, map_apply]
  rcases hp s mark with ⟨t, h⟩ | ⟨mark', h⟩
  · exact .inl ⟨t, by rw [h]; rfl⟩
  · refine .inr ⟨mark', ?_⟩
    rw [h]
    cases p s <;> rfl

theorem seqWith (f : α → β → γ) {q q' : Parser a β} (hp : p.Prunes p') (hq : q.Prunes q') :
    (Parser.seqWith f p q).Prunes (Parser.seqWith f p' q') := by
  intro s mark
  cases h : p s with
  | ok x t =>
    obtain ⟨mark₁, h₁⟩ := hp.ok mark h
    cases h' : q t with
    | ok y u =>
      obtain ⟨mark₂, h₂⟩ := hq.ok mark₁ h'
      rw [seqWith_ok_ok h h', seqWith_ok_ok h₁ h₂]
      exact .inr ⟨mark₂, rfl⟩
    | fail severity u =>
      rw [seqWith_ok_fail h h']
      rcases hq.fail mark₁ h' with rfl | ⟨mark₂, h₂⟩
      · exact .inl ⟨_, rfl⟩
      · rw [seqWith_ok_fail h₁ h₂]; exact .inr ⟨mark₂, rfl⟩
    | fault g =>
      rw [seqWith_ok_fault h h', seqWith_ok_fault h₁ (hq.fault mark₁ h')]
      exact .inr ⟨0, rfl⟩
  | fail severity t =>
    rw [seqWith_fail h]
    rcases hp.fail mark h with rfl | ⟨mark₁, h₁⟩
    · exact .inl ⟨_, rfl⟩
    · rw [seqWith_fail h₁]; exact .inr ⟨mark₁, rfl⟩
  | fault g =>
    rw [seqWith_fault h, seqWith_fault (hp.fault mark h)]
    exact .inr ⟨0, rfl⟩

theorem orElse {q q' : Parser a α} (hp : p.Prunes p') (hq : q.Prunes q') :
    (Parser.orElse p q).Prunes (Parser.orElse p' q') := by
  intro s mark
  cases h : p s with
  | ok x t =>
    obtain ⟨mark₁, h₁⟩ := hp.ok mark h
    rw [orElse_ok h, orElse_ok h₁]
    exact .inr ⟨mark₁, rfl⟩
  | fail severity t =>
    cases severity with
    | recoverable =>
      obtain ⟨mark₁, h₁⟩ := hp.recoverable mark h
      have hback : (t.withMark mark₁).restore (s.withMark mark).index =
          (t.restore s.index).withMark mark₁ := rfl
      rw [orElse_recoverable h, orElse_recoverable h₁, hback]
      exact hq (t.restore s.index) mark₁
    | committed => rw [orElse_committed h]; exact .inl ⟨_, rfl⟩
  | fault g =>
    rw [orElse_fault h, orElse_fault (hp.fault mark h)]
    exact .inr ⟨0, rfl⟩

/-! ## Lookahead and commitment -/

/-- The mark decides here, but only between a failure that commits and one that does not. -/
theorem atomic (hp : p.Prunes p') : (Parser.atomic p).Prunes p' := by
  intro s mark
  -- the mark that is set here is one more that the other parser does not see
  have hsame : (s.withMark s.index).withMark mark = s.withMark mark := rfl
  rw [← hsame]
  cases h : p (s.withMark s.index) with
  | ok x t =>
    obtain ⟨mark₁, h₁⟩ := hp.ok mark h
    rw [atomic_ok h, h₁]
    exact .inr ⟨mark₁, rfl⟩
  | fail severity t =>
    cases severity with
    | recoverable =>
      by_cases hmark : s.index < t.mark
      · rw [atomic_consumed h hmark]; exact .inl ⟨_, rfl⟩
      · obtain ⟨mark₁, h₁⟩ := hp.recoverable mark h
        rw [atomic_untouched h hmark, h₁]
        exact .inr ⟨mark₁, rfl⟩
    | committed => rw [atomic_committed h]; exact .inl ⟨_, rfl⟩
  | fault g =>
    rw [atomic_fault h, hp.fault mark h]
    exact .inr ⟨0, rfl⟩

theorem peek (hp : p.Prunes p') : (Parser.peek p).Prunes (Parser.peek p') := by
  intro s mark
  rw [peek_apply, peek_apply]
  rcases hp s mark with ⟨t, h⟩ | ⟨mark', h⟩
  · exact .inl ⟨_, by rw [h]; rfl⟩
  · refine .inr ⟨mark, ?_⟩
    rw [h]
    cases p s <;> rfl

/-! ## Repetition -/

theorem iterate (hp : p.Prunes p') (n : Nat) : (Parser.iterate p n).Prunes (Parser.iterate p' n) := by
  induction n with
  | zero => exact fun _ _ => .inr ⟨0, rfl⟩
  | succ n ih =>
    intro s mark
    cases h : p s with
    | ok x t =>
      obtain ⟨mark₁, h₁⟩ := hp.ok mark h
      by_cases hindex : t.index = s.index
      · rw [iterate_stuck h hindex, iterate_stuck h₁ hindex]; exact .inr ⟨0, rfl⟩
      · have hrest := ih.map (x :: ·) t mark₁
        rw [iterate_moved h hindex, iterate_moved h₁ hindex]
        exact hrest
    | fail severity t =>
      cases severity with
      | recoverable =>
        obtain ⟨mark₁, h₁⟩ := hp.recoverable mark h
        rw [iterate_recoverable h, iterate_recoverable h₁]
        exact .inr ⟨mark₁, rfl⟩
      | committed => rw [iterate_committed h]; exact .inl ⟨_, rfl⟩
    | fault g =>
      rw [iterate_fault h, iterate_fault (hp.fault mark h)]
      exact .inr ⟨0, rfl⟩

theorem many (hp : p.Prunes p') : (Parser.many p).Prunes (Parser.many p') := by
  intro s mark
  have hrun := iterate hp (s.input.length - s.index + 1)
  cases h : Parser.iterate p (s.input.length - s.index + 1) s with
  | ok xs t =>
    obtain ⟨mark₁, h₁⟩ := hrun.ok mark h
    rw [many_ok h, many_ok h₁]
    exact .inr ⟨mark₁, rfl⟩
  | fail severity t =>
    rw [many_fail h]
    rcases hrun.fail mark h with rfl | ⟨mark₁, h₁⟩
    · exact .inl ⟨_, rfl⟩
    · rw [many_fail h₁]; exact .inr ⟨mark₁, rfl⟩
  | fault g =>
    rw [many_fault h, many_fault (hrun.fault mark h)]
    exact .inr ⟨0, rfl⟩

/-! ## Names -/

theorem label (name : String) (hp : p.Prunes p') :
    (Parser.label name p).Prunes (Parser.label name p') := by
  intro s mark
  cases h : p (s.dropFailure.note (.enter name)) with
  | ok x t =>
    obtain ⟨mark₁, h₁⟩ := hp.ok mark h
    rw [label_ok h, label_ok (s := s.withMark mark) h₁]
    exact .inr ⟨mark₁, rfl⟩
  | fail severity t =>
    -- whether there is a name depends on the failure, which is the same in both
    by_cases hbeyond : t.failedBeyond s.index = true
    · rw [label_beyond h hbeyond]
      rcases hp.fail mark h with rfl | ⟨mark₁, h₁⟩
      · exact .inl ⟨_, rfl⟩
      · rw [label_beyond (s := s.withMark mark) h₁ hbeyond]; exact .inr ⟨mark₁, rfl⟩
    · rw [label_named h hbeyond]
      rcases hp.fail mark h with rfl | ⟨mark₁, h₁⟩
      · exact .inl ⟨_, rfl⟩
      · rw [label_named (s := s.withMark mark) h₁ hbeyond]; exact .inr ⟨mark₁, rfl⟩
  | fault g =>
    rw [label_fault h, label_fault (s := s.withMark mark) (hp.fault mark h)]
    exact .inr ⟨0, rfl⟩

theorem traced (name : String) (render : α → String) (hp : p.Prunes p') :
    (Parser.traced name render p).Prunes (Parser.traced name render p') := by
  intro s mark
  cases h : p (s.note (.enter name)) with
  | ok x t =>
    obtain ⟨mark₁, h₁⟩ := hp.ok mark h
    rw [traced_ok h, traced_ok (s := s.withMark mark) h₁]
    exact .inr ⟨mark₁, rfl⟩
  | fail severity t =>
    rw [traced_fail h]
    rcases hp.fail mark h with rfl | ⟨mark₁, h₁⟩
    · exact .inl ⟨_, rfl⟩
    · rw [traced_fail (s := s.withMark mark) h₁]; exact .inr ⟨mark₁, rfl⟩
  | fault g =>
    rw [traced_fault h, traced_fault (s := s.withMark mark) (hp.fault mark h)]
    exact .inr ⟨0, rfl⟩

/-! ## Texts -/

theorem spanned {p p' : Parser .text α} (f : α → Nat → Nat → List Char → β) (hp : p.Prunes p') :
    (Parser.spanned f p).Prunes (Parser.spanned f p') := by
  intro s mark
  cases h : p s with
  | ok x t =>
    obtain ⟨mark₁, h₁⟩ := hp.ok mark h
    cases hslice : t.slice? s.index t.index with
    | some text =>
      rw [spanned_ok h hslice, spanned_ok h₁ hslice]
      exact .inr ⟨mark₁, rfl⟩
    | none =>
      rw [spanned_out h hslice, spanned_out h₁ hslice]
      exact .inr ⟨0, rfl⟩
  | fail severity t =>
    rw [spanned_fail h]
    rcases hp.fail mark h with rfl | ⟨mark₁, h₁⟩
    · exact .inl ⟨_, rfl⟩
    · rw [spanned_fail h₁]; exact .inr ⟨mark₁, rfl⟩
  | fault g =>
    rw [spanned_fault h, spanned_fault (hp.fault mark h)]
    exact .inr ⟨0, rfl⟩

/-- Both grammars of tokens start from the same state, since a mark is not taken to the tokens. -/
theorem staged {grammar grammar' : Parser .tokens α} {lexer lexer' : Parser .text (List Token)}
    (hgrammar : grammar.Prunes grammar') (hlexer : lexer.Prunes lexer') :
    (Parser.staged grammar lexer).Prunes (Parser.staged grammar' lexer') := by
  intro s mark
  cases h : lexer s.dropFailure with
  | ok tokens t =>
    obtain ⟨mark₁, h₁⟩ := hlexer.ok mark h
    cases h' : grammar { input := tokens, events := t.events } with
    | ok x u =>
      obtain ⟨mark₂, h₂⟩ := hgrammar.ok 0 h'
      rw [staged_ok_ok h h', staged_ok_ok (s := s.withMark mark) h₁ h₂]
      exact .inr ⟨mark₁, rfl⟩
    | fail severity u =>
      rw [staged_ok_fail h h']
      rcases hgrammar.fail 0 h' with rfl | ⟨mark₂, h₂⟩
      · exact .inl ⟨_, rfl⟩
      · rw [staged_ok_fail (s := s.withMark mark) h₁ h₂]; exact .inr ⟨mark₁, rfl⟩
    | fault g =>
      rw [staged_ok_fault h h', staged_ok_fault (s := s.withMark mark) h₁ (hgrammar.fault 0 h')]
      exact .inr ⟨0, rfl⟩
  | fail severity t =>
    rw [staged_fail h]
    rcases hlexer.fail mark h with rfl | ⟨mark₁, h₁⟩
    · exact .inl ⟨_, rfl⟩
    · rw [staged_fail (s := s.withMark mark) h₁]; exact .inr ⟨mark₁, rfl⟩
  | fault g =>
    rw [staged_fault h, staged_fault (s := s.withMark mark) (hlexer.fault mark h)]
    exact .inr ⟨0, rfl⟩

end Prunes

end Parser

/-! ## Grammars -/

variable {S : Scope} {a : Alphabet} {α : Type}

/-- No `atomic` is used by what must not follow, or by a scanner of words. -/
def Part.LooksFreely (bindings : Bindings S) : Part S → Prop
  | ⟨.notFollowedBy p _⟩ => p.AtomicFree bindings
  | ⟨.terminal _ words⟩ => words.AtomicFree bindings
  | _ => True

/-- The erasure of a grammar is pruned by the grammar if that is so behind references. -/
theorem Grammar.run_prunes {bindings : Bindings S} {depth : Nat}
    (hresolve : ∀ x, (Grammar.ref x).Throughout bindings (Part.LooksFreely bindings) →
      (bindings.resolver depth x).Prunes (bindings.erased.resolver depth x))
    (g : Grammar S a α) (h : g.Throughout bindings (Part.LooksFreely bindings)) :
    (g.run (bindings.resolver depth)).Prunes (g.erased.run (bindings.erased.resolver depth)) := by
  -- what has no `atomic` in it is the same parser, and a parser prunes itself
  have hsame : ∀ {b : Alphabet} {β : Type} {p : Grammar S b β}, p.AtomicFree bindings →
      (p.run (bindings.resolver depth)).Prunes (p.erased.run (bindings.erased.resolver depth)) := by
    intro b β p hp
    rw [bindings.run_erased depth hp]
    exact .refl (p.run_historyFree (bindings.resolver_historyFree depth))
  induction g with
  | map f p ih => exact .map f (ih (h.operand (.head _)))
  | seqWith f p q ihp ihq =>
    exact .seqWith f (ihp (h.operand (.head _))) (ihq (h.operand (.tail _ (.head _))))
  | orElse p q ihp ihq =>
    exact .orElse (ihp (h.operand (.head _))) (ihq (h.operand (.tail _ (.head _))))
  | atomic p ih => exact .atomic (ih (h.operand (.head _)))
  | peek p ih => exact .peek (ih (h.operand (.head _)))
  | notFollowedBy p name _ => exact hsame (.unary id rfl h.self)
  | many p ih => exact .many (ih (h.operand (.head _)))
  | label name p ih => exact .label name (ih (h.operand (.head _)))
  | traced name render p ih => exact .traced name render (ih (h.operand (.head _)))
  | spanned f p ih => exact .spanned f (ih (h.operand (.head _)))
  | ref x => exact hresolve x h
  | staged grammar lexer ihgrammar ihlexer =>
    exact .staged (ihgrammar (h.operand (.head _))) (ihlexer (h.operand (.tail _ (.head _))))
  | terminal lexicon words _ => exact hsame (.unary id rfl h.self)
  | _ => exact hsame (.leaf id rfl)

theorem Bindings.resolver_prunes (bindings : Bindings S) (depth : Nat) (x : S.Ref)
    (hx : (Grammar.ref x).Throughout bindings (Part.LooksFreely bindings)) :
    (bindings.resolver depth x).Prunes (bindings.erased.resolver depth x) :=
  rewritten_induction Grammar.erased (R := Parser.Prunes) (fun _ _ _ _ => .inr ⟨0, rfl⟩)
    (fun _ h _ _ g hg => g.run_prunes h hg) depth x hx

/-- Commitment only prunes: a grammar ends in a committed failure, or it ends as it does without its
commitments, with the same value or fault, at the same index, with the same failure kept and the
same events. -/
theorem Rules.parser_erased (rules : Rules S) (g : Grammar S a α)
    (h : g.Throughout rules.bindings (Part.LooksFreely rules.bindings)) (s : State a) :
    (∃ t, rules.parser g s = .fail .committed t) ∨
      (rules.erased.parser g.erased s).unmarked = (rules.parser g s).unmarked := by
  have hprunes : (rules.parser g).Prunes (rules.erased.parser g.erased) :=
    g.run_prunes (rules.bindings.resolver_prunes rules.depth) h
  rcases hprunes s s.mark with hcommitted | ⟨mark, hsame⟩
  · exact .inl hcommitted
  · refine .inr ?_
    have hself : s.withMark s.mark = s := rfl
    rw [hself] at hsame
    rw [hsame]
    cases rules.parser g s <;> rfl

section

/-- No references. -/
def closedScope : Scope where
  Ref := Empty
  decideEq := inferInstance
  alphabet := nofun
  Value := nofun

/-- Nothing to refer to. -/
def closedRules : Rules closedScope :=
  ⟨[], 0⟩

/-- A letter. -/
def letter (c : Char) : Grammar closedScope .text Char :=
  .satisfy (· == c) c.toString

/-- An `a` and a `b`; after the `a` there must be the `b`. -/
def strictPair : Grammar closedScope .text Char :=
  .atomic (.skipThen (letter 'a') (letter 'b'))

/-- Pairs up to something other than a `c`. -/
def pairs : Grammar closedScope .text (List Char) :=
  .thenSkip (.many strictPair) (.notFollowedBy (letter 'c') "c")

/-- Two pairs and a `d`. -/
def twoPairs : State .text :=
  { input := ['a', 'b', 'a', 'b', 'd'] }

/-- Where a success ended. -/
def Outcome.stop? : Outcome a α → Option Nat
  | ok _ t => some t.index
  | _ => none

/-- Two pairs are read to the end with and without the commitment in them. -/
theorem pairs_erased :
    (pairs.Throughout closedRules.bindings (Part.LooksFreely closedRules.bindings)) ∧
    (closedRules.parser pairs twoPairs).stop? = some 4 ∧
    (closedRules.erased.parser pairs.erased twoPairs).unmarked =
      (closedRules.parser pairs twoPairs).unmarked := by
  have hfree : pairs.Throughout closedRules.bindings (Part.LooksFreely closedRules.bindings) :=
    .binary trivial rfl
      (.unary trivial rfl (.unary trivial rfl
        (.binary trivial rfl (.leaf trivial rfl) (.leaf trivial rfl))))
      (.unary (.leaf id rfl) rfl (.leaf trivial rfl))
  have hstop : (closedRules.parser pairs twoPairs).stop? = some 4 := by
    decide +kernel
  refine ⟨hfree, hstop, (Rules.parser_erased closedRules pairs hfree twoPairs).resolve_left ?_⟩
  rintro ⟨t, ht⟩
  rw [ht] at hstop
  cases hstop

/-- What must not follow may hold a commitment only if the two may differ: the first alternative
commits on `ac`, so the second is found only without the commitment. -/
example :
    let ahead := Grammar.notFollowedBy (.orElse strictPair (.skipThen (letter 'a') (letter 'c'))) "it"
    ((closedRules.parser ahead { input := ['a', 'c'] }).stop?,
      (closedRules.erased.parser ahead.erased { input := ['a', 'c'] }).stop?) =
    (some 0, none) := by
  decide +kernel

end

end Descent
