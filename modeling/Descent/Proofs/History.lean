import Descent.Proofs.Furthest
import Descent.Proofs.Parts
import Descent.Parser.Equations

/-!
A run does not depend on what happened before it.

The failure kept so far, the mark and the events are the `Past` of a state. A parser that starts with
a past does what it does without one, and the past is then put before what it left
(`Rules.parser_withPast`). Every place where a parser puts failures away or sets the mark back has to
put them together again in the right order; that this gives the same in the end is
`Failure.furthest_assoc`.
-/

namespace Descent

/-- What a state holds of the run up to it. -/
structure Past where
  mark : Nat := 0
  failure : Option Failure := none
  events : List Trace.Event := []

namespace State

variable {a : Alphabet}

/-- The state with something that happened before. -/
def withPast (s : State a) (past : Past) : State a :=
  { s.absorb past.failure with mark := max past.mark s.mark, events := s.events ++ past.events }

/-- The state at its place, with nothing behind it. -/
def bare (s : State a) : State a :=
  { input := s.input, index := s.index }

/-- What is behind a state. -/
def past (s : State a) : Past :=
  ⟨s.mark, s.failure, s.events⟩

theorem bare_withPast (s : State a) : s.bare.withPast s.past = s := by
  simp only [bare, past, withPast, absorb, Failure.furthest_none, Nat.max_zero, List.nil_append]

theorem bare_eq_iff {s t : State a} : t.bare = s.bare ↔ t.input = s.input ∧ t.index = s.index := by
  simp only [bare, State.mk.injEq, and_true]

/-- A place is bare wherever one comes back to it from. -/
theorem bare_restore {s t : State a} (hinput : t.input = s.input) :
    (t.restore s.index).bare = s.bare :=
  bare_eq_iff.mpr ⟨hinput, rfl⟩

variable (s : State a) (past : Past)

@[simp] theorem input_withPast : (s.withPast past).input = s.input := rfl

@[simp] theorem index_withPast : (s.withPast past).index = s.index := rfl

@[simp] theorem next?_withPast : (s.withPast past).next? = s.next? := rfl

@[simp] theorem hasNext_withPast : (s.withPast past).hasNext = s.hasNext := rfl

theorem failure_withPast :
    (s.withPast past).failure = Failure.furthest past.failure s.failure := rfl

/-- A past without a failure leaves the failure alone. -/
theorem failure_withPast_none (h : past.failure = none) :
    (s.withPast past).failure = s.failure := by
  rw [failure_withPast, h, Failure.none_furthest]

/-- A past that was put away is put before what was recorded since. -/
theorem absorb_withPast (t : State a) :
    (t.withPast { past with failure := none }).absorb (s.withPast past).failure =
      (t.absorb s.failure).withPast past := by
  simp only [withPast, absorb, Failure.none_furthest, Failure.furthest_assoc]

/-! ## What keeps to its order -/

theorem advance_withPast : (s.withPast past).advance = s.advance.withPast past := by
  unfold advance
  rw [hasNext_withPast]
  by_cases h : s.hasNext = true
  · simp only [if_pos h, withPast, absorb, Nat.max_assoc]
  · simp only [if_neg h]

theorem moveTo_withPast (index : Nat) :
    (s.withPast past).moveTo index = (s.moveTo index).withPast past := by
  simp only [withPast, moveTo, absorb, Nat.max_assoc]

theorem restore_withPast (index : Nat) :
    (s.withPast past).restore index = (s.restore index).withPast past := rfl

theorem note_withPast (event : Trace.Event) :
    (s.withPast past).note event = (s.note event).withPast past := rfl

theorem record_withPast (failure : Failure) :
    (s.withPast past).record failure = (s.record failure).withPast past := by
  have h := Failure.furthest_assoc past.failure s.failure (some failure)
  simp only [Failure.furthest_some] at h
  simp only [record, withPast, absorb, Failure.furthest_some, ← h]

theorem expect_withPast (names : List String) :
    (s.withPast past).expect names = (s.expect names).withPast past :=
  record_withPast s past _

theorem refuse_withPast (message : String) :
    (s.withPast past).refuse message = (s.refuse message).withPast past :=
  record_withPast s past _

end State

namespace Parser

variable {a : Alphabet} {α β γ : Type}

/-- A parser that only adds to what happened before it. -/
def HistoryFree (p : Parser a α) : Prop :=
  ∀ s past, p (s.withPast past) = (p s).mapState (·.withPast past)

namespace HistoryFree

section

variable {p : Parser a α} {s t : State a} {x : α} {severity : Severity} {g : Fault}

theorem ok (hp : p.HistoryFree) (past : Past) (h : p s = .ok x t) :
    p (s.withPast past) = .ok x (t.withPast past) := by
  rw [hp, h]; rfl

theorem fail (hp : p.HistoryFree) (past : Past) (h : p s = .fail severity t) :
    p (s.withPast past) = .fail severity (t.withPast past) := by
  rw [hp, h]; rfl

theorem fault (hp : p.HistoryFree) (past : Past) (h : p s = .fault g) :
    p (s.withPast past) = .fault g := by
  rw [hp, h]; rfl

/-- A run is the run from the bare place, with the past put before what that one leaves. -/
theorem bare (hp : p.HistoryFree) (s : State a) :
    p s = (p s.bare).mapState (·.withPast s.past) := by
  rw [← hp, State.bare_withPast]

theorem bare_ok (hp : p.HistoryFree) (h : p s = .ok x t) :
    ∃ t₀, p s.bare = .ok x t₀ ∧ t = t₀.withPast s.past := by
  rw [hp.bare] at h
  cases hs : p s.bare with
  | ok y t₀ => rw [hs] at h; cases h; exact ⟨t₀, rfl, rfl⟩
  | fail severity t₀ => rw [hs] at h; cases h
  | fault g => rw [hs] at h; cases h

theorem bare_fail (hp : p.HistoryFree) (h : p s = .fail severity t) :
    ∃ t₀, p s.bare = .fail severity t₀ ∧ t = t₀.withPast s.past := by
  rw [hp.bare] at h
  cases hs : p s.bare with
  | ok y t₀ => rw [hs] at h; cases h
  | fail severity t₀ => rw [hs] at h; cases h; exact ⟨t₀, rfl, rfl⟩
  | fault g => rw [hs] at h; cases h

theorem bare_fault (hp : p.HistoryFree) (h : p s = .fault g) : p s.bare = .fault g := by
  rw [hp.bare] at h
  cases hs : p s.bare with
  | ok y t₀ => rw [hs] at h; cases h
  | fail severity t₀ => rw [hs] at h; cases h
  | fault g => rw [hs] at h; cases h; rfl

/-! What a parser does at a bare place it does wherever one comes to the place from. -/

section

variable {u : State a}

theorem ok_at (hp : p.HistoryFree) (h : p s = .ok x t) (hplace : u.bare = s) :
    p u = .ok x (t.withPast u.past) := by
  rw [hp.bare, hplace, h]; rfl

theorem fail_at (hp : p.HistoryFree) (h : p s = .fail severity t) (hplace : u.bare = s) :
    p u = .fail severity (t.withPast u.past) := by
  rw [hp.bare, hplace, h]; rfl

theorem fault_at (hp : p.HistoryFree) (h : p s = .fault g) (hplace : u.bare = s) :
    p u = .fault g := by
  rw [hp.bare, hplace, h]; rfl

/-! Two runs from one place come to one place. -/

theorem ok_of_bare (hp : p.HistoryFree) (h : p s = .ok x t) (hplace : u.bare = s.bare) :
    ∃ v, p u = .ok x v ∧ v.bare = t.bare := by
  obtain ⟨t₀, ht₀, rfl⟩ := hp.bare_ok h
  exact ⟨_, hp.ok_at ht₀ hplace, rfl⟩

theorem fail_of_bare (hp : p.HistoryFree) (h : p s = .fail severity t)
    (hplace : u.bare = s.bare) : ∃ v, p u = .fail severity v ∧ v.bare = t.bare := by
  obtain ⟨t₀, ht₀, rfl⟩ := hp.bare_fail h
  exact ⟨_, hp.fail_at ht₀ hplace, rfl⟩

theorem fault_of_bare (hp : p.HistoryFree) (h : p s = .fault g) (hplace : u.bare = s.bare) :
    p u = .fault g :=
  hp.fault_at (hp.bare_fault h) hplace

end

end

/-! ## Single units -/

theorem item (extract : a.Item → Option α) (names : List String) :
    (Parser.item extract names).HistoryFree := by
  intro s past
  unfold Parser.item
  rw [State.next?_withPast]
  cases s.next?.bind extract with
  | some value => simp only [State.advance_withPast, Outcome.mapState]
  | none => simp only [State.expect_withPast, Outcome.mapState]

theorem atEnd : (Parser.atEnd (a := a)).HistoryFree := by
  intro s past
  unfold Parser.atEnd
  rw [State.hasNext_withPast]
  by_cases h : s.hasNext = true
  · simp only [if_pos h, State.expect_withPast, Outcome.mapState]
  · simp only [if_neg h, Outcome.mapState]

theorem refuse (message : String) : (Parser.refuse (a := a) (α := α) message).HistoryFree := by
  intro s past
  simp only [Parser.refuse, State.refuse_withPast, Outcome.mapState]

theorem scan (matcher : List Char → Nat → Option (Nat × α)) (name : String) :
    (Parser.scan matcher name).HistoryFree := by
  intro s past
  unfold Parser.scan
  simp only [State.index_withPast, State.input_withPast]
  cases matcher s.input s.index with
  | some found =>
    obtain ⟨stop, value⟩ := found
    by_cases h : s.index ≤ stop ∧ stop ≤ s.input.length
    · simp only [h, and_self, if_true, State.moveTo_withPast, Outcome.mapState]
    · simp only [h, if_false, Outcome.mapState]
  | none => simp only [State.expect_withPast, Outcome.mapState]

/-! ## Sequence and choice -/

variable {p : Parser a α}

theorem map (f : α → β) (hp : p.HistoryFree) : (Parser.map f p).HistoryFree := by
  intro s past
  rw [map_apply, map_apply, hp]
  cases p s <;> rfl

theorem seqWith (f : α → β → γ) {q : Parser a β} (hp : p.HistoryFree) (hq : q.HistoryFree) :
    (Parser.seqWith f p q).HistoryFree := by
  intro s past
  cases h : p s with
  | ok x t =>
    have h₁ := hp.ok past h
    cases h' : q t with
    | ok y u => rw [seqWith_ok_ok h h', seqWith_ok_ok h₁ (hq.ok past h')]; rfl
    | fail severity u => rw [seqWith_ok_fail h h', seqWith_ok_fail h₁ (hq.fail past h')]; rfl
    | fault g => rw [seqWith_ok_fault h h', seqWith_ok_fault h₁ (hq.fault past h')]; rfl
  | fail severity t => rw [seqWith_fail h, seqWith_fail (hp.fail past h)]; rfl
  | fault g => rw [seqWith_fault h, seqWith_fault (hp.fault past h)]; rfl

theorem orElse {q : Parser a α} (hp : p.HistoryFree) (hq : q.HistoryFree) :
    (Parser.orElse p q).HistoryFree := by
  intro s past
  cases h : p s with
  | ok x t => rw [orElse_ok h, orElse_ok (hp.ok past h)]; rfl
  | fail severity t =>
    cases severity with
    | recoverable =>
      rw [orElse_recoverable h, orElse_recoverable (hp.fail past h), State.index_withPast,
        State.restore_withPast, hq]
    | committed => rw [orElse_committed h, orElse_committed (hp.fail past h)]; rfl
  | fault g => rw [orElse_fault h, orElse_fault (hp.fault past h)]; rfl

/-! ## Lookahead and commitment -/

/-- Inside, the mark begins anew, so the past it comes with is without one. -/
theorem atomic (hp : p.HistoryFree) : (Parser.atomic p).HistoryFree := by
  intro s past
  have hstart : ({ s.withPast past with mark := (s.withPast past).index } : State a) =
      ({ s with mark := s.index } : State a).withPast { past with mark := 0 } := by
    simp only [State.withPast, State.absorb, Nat.zero_max]
  have hraise : ∀ t : State a,
      (t.withPast { past with mark := 0 }).raiseMark (s.withPast past).mark =
        (t.raiseMark s.mark).withPast past := by
    intro t
    simp only [State.withPast, State.raiseMark, State.absorb, Nat.zero_max, Nat.max_left_comm]
  cases h : p { s with mark := s.index } with
  | ok x t =>
    have h₁ := hp.ok { past with mark := 0 } h
    rw [← hstart] at h₁
    rw [atomic_ok h, atomic_ok h₁, hraise]
    rfl
  | fail severity t =>
    have h₁ := hp.fail { past with mark := 0 } h
    rw [← hstart] at h₁
    have hmark : (t.withPast { past with mark := 0 }).mark = t.mark := Nat.zero_max _
    cases severity with
    | recoverable =>
      by_cases hconsumed : s.index < t.mark
      · rw [atomic_consumed h hconsumed, atomic_consumed h₁ (by rw [hmark]; exact hconsumed),
          hraise]
        rfl
      · rw [atomic_untouched h hconsumed, atomic_untouched h₁ (by rw [hmark]; exact hconsumed),
          hraise]
        rfl
    | committed => rw [atomic_committed h, atomic_committed h₁, hraise]; rfl
  | fault g =>
    have h₁ := hp.fault { past with mark := 0 } h
    rw [← hstart] at h₁
    rw [atomic_fault h, atomic_fault h₁]
    rfl

theorem peek (hp : p.HistoryFree) : (Parser.peek p).HistoryFree := by
  intro s past
  rw [peek_apply, peek_apply, hp]
  cases p s <;> rfl

/-- A past that was put away is put back in front. -/
theorem afterLook_withPast (s t : State a) (past : Past) :
    (s.withPast past).afterLook (t.withPast { past with failure := none }) =
      (s.afterLook t).withPast past := rfl

theorem notFollowedBy (hp : p.HistoryFree) (name : String) :
    (Parser.notFollowedBy p name).HistoryFree := by
  intro s past
  cases h : p s.dropFailure with
  | ok x t =>
    have h₁ : p (s.withPast past).dropFailure = _ := hp.ok { past with failure := none } h
    rw [notFollowedBy_ok h, notFollowedBy_ok h₁, afterLook_withPast, State.refuse_withPast]
    rfl
  | fail severity t =>
    have h₁ : p (s.withPast past).dropFailure = _ := hp.fail { past with failure := none } h
    rw [notFollowedBy_fail h, notFollowedBy_fail h₁, afterLook_withPast]
    rfl
  | fault g =>
    have h₁ : p (s.withPast past).dropFailure = _ := hp.fault { past with failure := none } h
    rw [notFollowedBy_fault h, notFollowedBy_fault h₁]
    rfl

/-! ## Repetition -/

theorem iterate (hp : p.HistoryFree) (n : Nat) (s : State a) (past : Past) :
    Parser.iterate p n (s.withPast past) =
      (Parser.iterate p n s).mapState (·.withPast past) := by
  induction n generalizing s with
  | zero => rfl
  | succ n ih =>
    cases h : p s with
    | ok x t =>
      have h₁ := hp.ok past h
      by_cases hindex : t.index = s.index
      · rw [iterate_stuck h hindex, iterate_stuck h₁ hindex]; rfl
      · rw [iterate_moved h hindex, iterate_moved h₁ hindex, ih]
        cases Parser.iterate p n t <;> rfl
    | fail severity t =>
      have h₁ := hp.fail past h
      cases severity with
      | recoverable => rw [iterate_recoverable h, iterate_recoverable h₁]; rfl
      | committed => rw [iterate_committed h, iterate_committed h₁]; rfl
    | fault g => rw [iterate_fault h, iterate_fault (hp.fault past h)]; rfl

theorem many (hp : p.HistoryFree) : (Parser.many p).HistoryFree := by
  intro s past
  have hs := iterate hp (s.input.length - s.index + 1) s past
  cases h : Parser.iterate p (s.input.length - s.index + 1) s with
  | ok xs t => rw [h] at hs; rw [many_ok h, many_ok hs]; rfl
  | fail severity t => rw [h] at hs; rw [many_fail h, many_fail hs]; rfl
  | fault g => rw [h] at hs; rw [many_fault h, many_fault hs]; rfl

/-! ## Names -/

/-- The name is put where the failures of the operand were, before any of the past is back; so it is
the operand alone that decides whether there is a name. -/
theorem label (name : String) (hp : p.HistoryFree) : (Parser.label name p).HistoryFree := by
  intro s past
  cases h : p (s.dropFailure.note (.enter name)) with
  | ok x t =>
    have h₁ : p ((s.withPast past).dropFailure.note (.enter name)) = _ :=
      hp.ok { past with failure := none } h
    rw [label_ok h, label_ok h₁, State.note_withPast, State.absorb_withPast]
    rfl
  | fail severity t =>
    have h₁ : p ((s.withPast past).dropFailure.note (.enter name)) = _ :=
      hp.fail { past with failure := none } h
    have hbeyond : (t.withPast { past with failure := none }).failedBeyond s.index =
        t.failedBeyond s.index := by
      unfold State.failedBeyond
      rw [State.failure_withPast_none _ _ rfl]
    by_cases hfurther : t.failedBeyond s.index = true
    · rw [label_beyond h hfurther, label_beyond h₁ (hbeyond.trans hfurther),
        State.note_withPast, State.absorb_withPast]
      rfl
    · have hagain : (((t.withPast { past with failure := none }).note .leave).dropFailure.restore
          s.index) = ((t.note .leave).dropFailure.restore s.index).withPast
            { past with failure := none } := rfl
      rw [label_named h hfurther, label_named h₁ (hbeyond ▸ hfurther), State.index_withPast,
        hagain, State.expect_withPast, State.absorb_withPast]
      rfl
  | fault g =>
    have h₁ : p ((s.withPast past).dropFailure.note (.enter name)) = _ :=
      hp.fault { past with failure := none } h
    rw [label_fault h, label_fault h₁]
    rfl

theorem traced (name : String) (render : α → String) (hp : p.HistoryFree) :
    (Parser.traced name render p).HistoryFree := by
  intro s past
  cases h : p (s.note (.enter name)) with
  | ok x t =>
    have h₁ : p ((s.withPast past).note (.enter name)) = _ := hp.ok past h
    rw [traced_ok h, traced_ok h₁]
    rfl
  | fail severity t =>
    have h₁ : p ((s.withPast past).note (.enter name)) = _ := hp.fail past h
    rw [traced_fail h, traced_fail h₁]
    rfl
  | fault g =>
    have h₁ : p ((s.withPast past).note (.enter name)) = _ := hp.fault past h
    rw [traced_fault h, traced_fault h₁]
    rfl

/-! ## Texts -/

theorem spanned {p : Parser .text α} (f : α → Nat → Nat → List Char → β) (hp : p.HistoryFree) :
    (Parser.spanned f p).HistoryFree := by
  intro s past
  cases h : p s with
  | ok x t =>
    have h₁ := hp.ok past h
    cases hslice : t.slice? s.index t.index with
    | some text => rw [spanned_ok h hslice, spanned_ok h₁ hslice]; rfl
    | none => rw [spanned_out h hslice, spanned_out h₁ hslice]; rfl
  | fail severity t => rw [spanned_fail h, spanned_fail (hp.fail past h)]; rfl
  | fault g => rw [spanned_fault h, spanned_fault (hp.fault past h)]; rfl

/-- Among the tokens there is no past but that of the events. -/
theorem staged {grammar : Parser .tokens α} {lexer : Parser .text (List Token)}
    (hgrammar : grammar.HistoryFree) (hlexer : lexer.HistoryFree) :
    (Parser.staged grammar lexer).HistoryFree := by
  intro s past
  have hback : ∀ (t : State .text) (tokens : List Token) (u : State .tokens),
      (s.withPast past).afterStages (t.withPast { past with failure := none }) tokens
        (u.withPast { events := past.events }) = (s.afterStages t tokens u).withPast past := by
    intro t tokens u
    simp only [State.afterStages, State.withPast, State.absorb, Failure.none_furthest,
      Failure.furthest_assoc]
  cases h : lexer s.dropFailure with
  | ok tokens t =>
    have h₁ : lexer (s.withPast past).dropFailure = _ := hlexer.ok { past with failure := none } h
    cases h' : grammar { input := tokens, events := t.events } with
    | ok x u =>
      have h₂ : grammar { input := tokens, events := t.events ++ past.events } = _ :=
        hgrammar.ok { events := past.events } h'
      rw [staged_ok_ok h h', staged_ok_ok h₁ h₂, hback]
      rfl
    | fail severity u =>
      have h₂ : grammar { input := tokens, events := t.events ++ past.events } = _ :=
        hgrammar.fail { events := past.events } h'
      rw [staged_ok_fail h h', staged_ok_fail h₁ h₂, hback]
      rfl
    | fault g =>
      have h₂ : grammar { input := tokens, events := t.events ++ past.events } = _ :=
        hgrammar.fault { events := past.events } h'
      rw [staged_ok_fault h h', staged_ok_fault h₁ h₂]
      rfl
  | fail severity t =>
    have h₁ : lexer (s.withPast past).dropFailure = _ :=
      hlexer.fail { past with failure := none } h
    rw [staged_fail h, staged_fail h₁]
    rfl
  | fault g =>
    have h₁ : lexer (s.withPast past).dropFailure = _ :=
      hlexer.fault { past with failure := none } h
    rw [staged_fault h, staged_fault h₁]
    rfl

theorem scanWord {words : Parser .text Unit} (hwords : words.HistoryFree) (s : State .text)
    (past : Past) : Parser.scanWord words (s.withPast past) =
      (Parser.scanWord words s).map fun found => (found.1, found.2.withPast past) := by
  cases h : words s.dropFailure with
  | ok x t =>
    have h₁ : words (s.withPast past).dropFailure = _ :=
      hwords.ok { past with failure := none } h
    rw [scanWord_ok h, scanWord_ok h₁, afterLook_withPast]
    rfl
  | fail severity t =>
    have h₁ : words (s.withPast past).dropFailure = _ :=
      hwords.fail { past with failure := none } h
    rw [scanWord_fail h, scanWord_fail h₁, afterLook_withPast]
    rfl
  | fault g =>
    have h₁ : words (s.withPast past).dropFailure = _ :=
      hwords.fault { past with failure := none } h
    rw [scanWord_fault h, scanWord_fault h₁]
    rfl

theorem cut (stop : Nat) (kind : String → TokenKind) : (Parser.cut stop kind).HistoryFree := by
  intro s past
  cases h : s.slice? s.index stop with
  | some chars =>
    have h₁ : (s.withPast past).slice? (s.withPast past).index stop = some chars := h
    rw [cut_ok h, cut_ok h₁, State.moveTo_withPast]
    rfl
  | none =>
    have h₁ : (s.withPast past).slice? (s.withPast past).index stop = none := h
    rw [cut_out h, cut_out h₁]
    rfl

theorem terminal (lexicon : Lexicon) {words : Parser .text Unit} (hwords : words.HistoryFree) :
    (Parser.terminal lexicon words).HistoryFree := by
  intro s past
  by_cases hs : s.input.length < s.index ∧ lexicon.operators ≠ []
  · have hs₁ : (s.withPast past).input.length < (s.withPast past).index := hs.1
    rw [terminal_out hs.1 hs.2, terminal_out hs₁ hs.2]
    rfl
  have hscan := scanWord hwords s past
  cases h : Parser.scanWord words s with
  | error g =>
    rw [h] at hscan
    rw [terminal_fault hs h, terminal_fault (s := s.withPast past) hs hscan]
    rfl
  | ok scanned =>
    obtain ⟨stop, t⟩ := scanned
    rw [h] at hscan
    -- the same operator and the same word compete
    simp only [Parser.terminal, if_neg hs, h, hscan, Except.map, State.input_withPast,
      State.index_withPast]
    cases Lexicon.longestOperator? lexicon.operators (t.input.drop t.index) with
    | none =>
      cases stop with
      | none => rw [State.expect_withPast]; rfl
      | some stop => exact cut _ _ t past
    | some operator =>
      cases stop with
      | none => exact cut _ _ t past
      | some stop =>
        by_cases hlonger : t.index + operator.length < stop
        · simp only [hlonger, if_true]; exact cut _ _ t past
        · simp only [hlonger, if_false]; exact cut _ _ t past

end HistoryFree

end Parser

/-! ## Grammars -/

variable {S : Scope} {a : Alphabet} {α : Type}

theorem Grammar.run_historyFree {resolve : Resolver S} (hresolve : ∀ x, (resolve x).HistoryFree)
    (g : Grammar S a α) : (g.run resolve).HistoryFree := by
  induction g with
  | item extract names => exact .item extract names
  | atEnd => exact .atEnd
  | pure value => exact fun _ _ => rfl
  | refuse message => exact .refuse message
  | silent severity => exact fun _ _ => rfl
  | scan matcher name => exact .scan matcher name
  | map f p ih => exact .map f ih
  | seqWith f p q ihp ihq => exact .seqWith f ihp ihq
  | orElse p q ihp ihq => exact .orElse ihp ihq
  | atomic p ih => exact .atomic ih
  | peek p ih => exact .peek ih
  | notFollowedBy p name ih => exact .notFollowedBy ih name
  | many p ih => exact .many ih
  | label name p ih => exact .label name ih
  | traced name render p ih => exact .traced name render ih
  | spanned f p ih => exact .spanned f ih
  | ref x => exact hresolve x
  | staged grammar lexer ihgrammar ihlexer => exact .staged ihgrammar ihlexer
  | terminal lexicon words ih => exact .terminal lexicon ih

theorem Bindings.resolver_historyFree (bindings : Bindings S) (depth : Nat) (x : S.Ref) :
    (bindings.resolver depth x).HistoryFree :=
  resolver_induction (Q := Parser.HistoryFree) (fun _ _ _ => rfl) (fun _ _ _ => rfl)
    (fun _ h _ _ g _ => g.run_historyFree fun x => h x (Grammar.throughout_true _)) depth x
    (Grammar.throughout_true _)

/-- Every parser only adds to what happened before it. -/
theorem Rules.parser_withPast (rules : Rules S) (g : Grammar S a α) (s : State a) (past : Past) :
    rules.parser g (s.withPast past) = (rules.parser g s).mapState (·.withPast past) :=
  g.run_historyFree (rules.bindings.resolver_historyFree rules.depth) s past

/-! ## Two runs -/

/-- Two runs end alike: with the same value at the same index, with the same kind of failure at the
same index, or with the same fault. -/
inductive Outcome.SameEnd : Outcome a α → Outcome a α → Prop where
  | ok (value : α) {s t : State a} (index : s.index = t.index) : SameEnd (ok value s) (ok value t)
  | fail (severity : Severity) {s t : State a} (index : s.index = t.index) :
      SameEnd (fail severity s) (fail severity t)
  | fault (g : Fault) : SameEnd (fault g) (fault g)

/-- A run from the same place with another past ends alike. -/
theorem Outcome.sameEnd_withPast (outcome : Outcome a α) (past past' : Past) :
    (outcome.mapState (·.withPast past)).SameEnd (outcome.mapState (·.withPast past')) := by
  cases outcome with
  | ok value s => exact .ok value rfl
  | fail severity s => exact .fail severity rfl
  | fault g => exact .fault g

/-- The mark and the failure a run starts with, and the events before it, have no say in how it
ends; and what they are afterwards is what the run by itself leaves put together with what there
was: of the failures the furthest, of the marks the larger one. -/
theorem Rules.parser_independent (rules : Rules S) (g : Grammar S a α) (input : List a.Item)
    (index : Nat) (mark mark' : Nat) (failure failure' : Option Failure)
    (events events' : List Trace.Event) :
    (rules.parser g ⟨input, index, mark, failure, events⟩).SameEnd
      (rules.parser g ⟨input, index, mark', failure', events'⟩) ∧
    rules.parser g ⟨input, index, mark, failure, events⟩ =
      (rules.parser g ⟨input, index, 0, none, []⟩).mapState fun t =>
        { t.absorb failure with mark := max mark t.mark, events := t.events ++ events } := by
  -- a state is the bare one at its place with its own contents for a past
  have hpast : ∀ mark failure events, (⟨input, index, mark, failure, events⟩ : State a) =
      (⟨input, index, 0, none, []⟩ : State a).withPast ⟨mark, failure, events⟩ := by
    intro mark failure events
    simp only [State.withPast, State.absorb, Failure.furthest_none, Nat.max_zero, List.nil_append]
  constructor
  · rw [hpast mark, hpast mark', rules.parser_withPast, rules.parser_withPast]
    exact Outcome.sameEnd_withPast _ _ _
  · rw [hpast mark, rules.parser_withPast]
    rfl

end Descent
