import Descent.Proofs.Recorded
import Descent.Proofs.Repetition

/-!
Past the end of its input a parser does not move.

Nothing keeps a state from being set past the end of its input. There is nothing to be taken there, so
whatever parser comes of a grammar ends where it began, or it is at fault
(`Rules.parser_standsPastEnd`). With that a repetition need not be told that it begins within its
input: past the end it is over in its first round.
-/

namespace Descent

namespace State

variable {a : Alphabet} {s t : State a}

theorem bare_back (h : t.bare = s.bare) : (t.restore s.index).bare = s.bare :=
  bare_restore (bare_eq_iff.mp h).1

theorem bare_afterLook (h : t.bare = s.bare) : (s.afterLook t).bare = s.bare :=
  bare_back h

/-- Whether a state is past the end of its input is told by its place. -/
theorem pastEnd_of_bare (h : t.bare = s.bare) (hs : s.input.length < s.index) :
    t.input.length < t.index := by
  obtain ⟨hinput, hindex⟩ := bare_eq_iff.mp h
  rw [hinput, hindex]
  exact hs

end State

namespace Parser

variable {a : Alphabet} {α β γ : Type}

/-- A parser that does not move past the end of its input. -/
def StandsPastEnd (p : Parser a α) : Prop :=
  ∀ s, s.input.length < s.index → (p s).Ends fun t => t.bare = s.bare

namespace StandsPastEnd

section

variable {p : Parser a α} {s t : State a} {x : α} {severity : Severity}

theorem ok (hp : p.StandsPastEnd) (hs : s.input.length < s.index) (h : p s = .ok x t) :
    t.bare = s.bare :=
  (hp s hs).of_ok h

theorem fail (hp : p.StandsPastEnd) (hs : s.input.length < s.index)
    (h : p s = .fail severity t) : t.bare = s.bare :=
  (hp s hs).of_fail h

end

/-! ## Single units -/

variable {p : Parser a α}

theorem item (extract : a.Item → Option α) (names : List String) :
    (Parser.item extract names).StandsPastEnd := by
  intro s hs
  have hnone : s.next?.bind extract = none := by
    rw [State.next?, List.getElem?_eq_none (Nat.le_of_lt hs), Option.bind_none]
  unfold Parser.item
  rw [hnone]
  exact rfl

theorem atEnd : (Parser.atEnd (a := a)).StandsPastEnd := by
  intro s hs
  unfold Parser.atEnd
  split <;> exact rfl

theorem scan (matcher : List Char → Nat → Option (Nat × α)) (name : String) :
    (Parser.scan matcher name).StandsPastEnd := by
  intro s hs
  unfold Parser.scan
  split
  · split
    · rename_i hbounds
      exact absurd (Nat.le_trans hbounds.1 hbounds.2) (Nat.not_le.mpr hs)
    · trivial
  · exact rfl

/-! ## Sequence and choice -/

theorem map (f : α → β) (hp : p.StandsPastEnd) : (Parser.map f p).StandsPastEnd :=
  fun s hs => (hp s hs).map f

theorem seqWith (f : α → β → γ) {q : Parser a β} (hp : p.StandsPastEnd) (hq : q.StandsPastEnd) :
    (Parser.seqWith f p q).StandsPastEnd := by
  intro s hs
  cases h : p s with
  | ok x t =>
    have ht := hp.ok hs h
    have hts := State.pastEnd_of_bare ht hs
    cases h' : q t with
    | ok y u => rw [seqWith_ok_ok h h']; exact (hq.ok hts h').trans ht
    | fail severity u =>
      rw [seqWith_ok_fail h h']
      exact State.bare_back ((hq.fail hts h').trans ht)
    | fault g => rw [seqWith_ok_fault h h']; trivial
  | fail severity t => rw [seqWith_fail h]; exact State.bare_back (hp.fail hs h)
  | fault g => rw [seqWith_fault h]; trivial

theorem orElse {q : Parser a α} (hp : p.StandsPastEnd) (hq : q.StandsPastEnd) :
    (Parser.orElse p q).StandsPastEnd := by
  intro s hs
  cases h : p s with
  | ok x t => rw [orElse_ok h]; exact hp.ok hs h
  | fail severity t =>
    have ht := hp.fail hs h
    cases severity with
    | recoverable =>
      have hback := State.bare_back ht
      rw [orElse_recoverable h, ← hback]
      exact hq _ (State.pastEnd_of_bare hback hs)
    | committed => rw [orElse_committed h]; exact ht
  | fault g => rw [orElse_fault h]; trivial

/-! ## Lookahead and commitment -/

theorem atomic (hp : p.StandsPastEnd) : (Parser.atomic p).StandsPastEnd := by
  intro s hs
  cases h : p { s with mark := s.index } with
  | ok x t =>
    have ht : t.bare = s.bare := hp.ok (s := { s with mark := s.index }) hs h
    rw [atomic_ok h]
    exact ht
  | fail severity t =>
    have ht : t.bare = s.bare := hp.fail (s := { s with mark := s.index }) hs h
    cases severity with
    | recoverable =>
      by_cases hmark : s.index < t.mark
      · rw [atomic_consumed h hmark]; exact State.bare_back (t := t.raiseMark s.mark) ht
      · rw [atomic_untouched h hmark]; exact ht
    | committed => rw [atomic_committed h]; exact ht
  | fault g => rw [atomic_fault h]; trivial

theorem peek (hp : p.StandsPastEnd) : (Parser.peek p).StandsPastEnd :=
  fun s hs => (hp s hs).mapState fun _ ht => State.bare_back ht

theorem notFollowedBy (hp : p.StandsPastEnd) (name : String) :
    (Parser.notFollowedBy p name).StandsPastEnd := by
  intro s hs
  cases h : p s.dropFailure with
  | ok x t =>
    rw [notFollowedBy_ok h]
    exact State.bare_afterLook (hp.ok (s := s.dropFailure) hs h)
  | fail severity t =>
    rw [notFollowedBy_fail h]
    exact State.bare_afterLook (hp.fail (s := s.dropFailure) hs h)
  | fault g => rw [notFollowedBy_fault h]; trivial

/-! ## Repetition -/

theorem many (hp : p.StandsPastEnd) : (Parser.many p).StandsPastEnd := by
  intro s hs
  rw [many_apply]
  cases h : p s with
  | ok x t =>
    rw [iterate_stuck h (State.bare_eq_iff.mp (hp.ok hs h)).2]
    trivial
  | fail severity t =>
    have ht := State.bare_back (hp.fail hs h)
    cases severity with
    | recoverable => rw [iterate_recoverable h]; exact ht
    | committed => rw [iterate_committed h]; exact ht
  | fault g => rw [iterate_fault h]; trivial

/-- Past the end a repetition is over in its first round. -/
theorem settles (hp : p.StandsPastEnd) (hb : p.Backtracks) (s : State a) : p.Settles s := by
  rcases Nat.lt_or_ge s.input.length s.index with hs | hs
  · cases h : p s with
    | ok x t => exact ⟨_, _, .stands h (State.bare_eq_iff.mp (hp.ok hs h)).2, Nat.le_add_left _ _⟩
    | fail severity t =>
      cases severity with
      | recoverable => exact ⟨_, _, .ends h, Nat.le_add_left _ _⟩
      | committed => exact ⟨_, _, .commits h, Nat.le_add_left _ _⟩
    | fault f => exact ⟨_, _, .faults h, Nat.le_add_left _ _⟩
  · exact settles_within hb hs

/-! ## Names -/

theorem label (name : String) (hp : p.StandsPastEnd) : (Parser.label name p).StandsPastEnd := by
  intro s hs
  cases h : p (s.dropFailure.note (.enter name)) with
  | ok x t =>
    have ht : t.bare = s.bare := hp.ok (s := s.dropFailure.note (.enter name)) hs h
    rw [label_ok h]
    exact ht
  | fail severity t =>
    have ht : t.bare = s.bare := hp.fail (s := s.dropFailure.note (.enter name)) hs h
    by_cases hbeyond : t.failedBeyond s.index = true
    · rw [label_beyond h hbeyond]; exact ht
    · rw [label_named h hbeyond]; exact State.bare_back (t := t) ht
  | fault g => rw [label_fault h]; trivial

theorem traced (name : String) (render : α → String) (hp : p.StandsPastEnd) :
    (Parser.traced name render p).StandsPastEnd := by
  intro s hs
  cases h : p (s.note (.enter name)) with
  | ok x t =>
    have ht : t.bare = s.bare := hp.ok (s := s.note (.enter name)) hs h
    rw [traced_ok h]
    exact ht
  | fail severity t =>
    have ht : t.bare = s.bare := hp.fail (s := s.note (.enter name)) hs h
    rw [traced_fail h]
    exact ht
  | fault g => rw [traced_fault h]; trivial

/-! ## Text -/

theorem spanned (f : α → Nat → Nat → List Char → β) {p : Parser .text α} (hp : p.StandsPastEnd) :
    (Parser.spanned f p).StandsPastEnd := by
  intro s hs
  cases h : p s with
  | ok x t =>
    cases hslice : t.slice? s.index t.index with
    | some text => rw [spanned_ok h hslice]; exact hp.ok hs h
    | none => rw [spanned_out h hslice]; trivial
  | fail severity t => rw [spanned_fail h]; exact hp.fail hs h
  | fault g => rw [spanned_fault h]; trivial

theorem staged (grammar : Parser .tokens α) {lexer : Parser .text (List Token)}
    (hlexer : lexer.StandsPastEnd) : (Parser.staged grammar lexer).StandsPastEnd := by
  intro s hs
  cases h : lexer s.dropFailure with
  | ok tokens t =>
    have ht : t.bare = s.bare := hlexer.ok (s := s.dropFailure) hs h
    cases h' : grammar { input := tokens, events := t.events } with
    | ok x u => rw [staged_ok_ok h h']; exact ht
    | fail severity u => rw [staged_ok_fail h h']; exact State.bare_back (t := t) ht
    | fault g => rw [staged_ok_fault h h']; trivial
  | fail severity t =>
    have ht : t.bare = s.bare := hlexer.fail (s := s.dropFailure) hs h
    rw [staged_fail h]
    exact ht
  | fault g => rw [staged_fault h]; trivial

theorem cut (stop : Nat) (kind : String → TokenKind) : (Parser.cut stop kind).StandsPastEnd := by
  intro s hs
  have hout : s.slice? s.index stop = none :=
    if_neg fun h => absurd (Nat.le_trans h.1 h.2) (Nat.not_le.mpr hs)
  rw [cut_out hout]
  trivial

theorem terminal (lexicon : Lexicon) {words : Parser .text Unit} (hwords : words.StandsPastEnd) :
    (Parser.terminal lexicon words).StandsPastEnd := by
  intro s hs
  by_cases hops : lexicon.operators ≠ []
  · rw [terminal_out hs hops]; trivial
  have hscans : ¬ (s.input.length < s.index ∧ lexicon.operators ≠ []) := fun h => hops h.2
  cases h : Parser.scanWord words s with
  | error g => rw [terminal_fault hscans h]; trivial
  | ok scanned =>
    obtain ⟨stop, t⟩ := scanned
    have ht : t.bare = s.bare := by
      cases h' : words s.dropFailure with
      | ok x u =>
        rw [scanWord_ok h'] at h
        cases h
        exact State.bare_afterLook (hwords.ok (s := s.dropFailure) hs h')
      | fail severity u =>
        rw [scanWord_fail h'] at h
        cases h
        exact State.bare_afterLook (hwords.fail (s := s.dropFailure) hs h')
      | fault g => rw [scanWord_fault h'] at h; cases h
    have hts := State.pastEnd_of_bare ht hs
    rcases terminal_scanned hscans h with ⟨-, -, h'⟩ | ⟨n, -, -, h'⟩ | ⟨operator, -, -, h'⟩
    · rw [h']; exact ht
    · rw [h', ← ht]; exact cut n _ t hts
    · rw [h', ← ht]; exact cut _ _ t hts

end StandsPastEnd

end Parser

/-! ## Grammars -/

variable {S : Scope} {a : Alphabet} {α : Type}

theorem Grammar.run_standsPastEnd {resolve : Resolver S}
    (hresolve : ∀ x, (resolve x).StandsPastEnd) (g : Grammar S a α) :
    (g.run resolve).StandsPastEnd := by
  induction g with
  | item extract names => exact .item extract names
  | atEnd => exact .atEnd
  | pure value => exact fun _ _ => rfl
  | refuse message => exact fun _ _ => rfl
  | silent severity => exact fun _ _ => rfl
  | scan matcher name => exact .scan matcher name
  | map f p ih => exact .map f ih
  | seqWith f p q ihp ihq => exact .seqWith f ihp ihq
  | orElse p q ihp ihq => exact .orElse ihp ihq
  | atomic p ih => exact .atomic ih
  | peek p ih => exact .peek ih
  | notFollowedBy p name ih => exact .notFollowedBy ih name
  | many p ih => exact .many ih
  | label name p ih => exact .label name ih
  | traced name render p ih => exact .traced name render ih
  | spanned f p ih => exact .spanned f ih
  | ref x => exact hresolve x
  | staged grammar lexer _ ih => exact .staged _ ih
  | terminal lexicon words ih => exact .terminal lexicon ih

/-- Past the end of its input every parser ends where it began, if it ends at all. -/
theorem Rules.parser_standsPastEnd (rules : Rules S) (g : Grammar S a α) :
    (rules.parser g).StandsPastEnd :=
  g.run_standsPastEnd fun x =>
    Bindings.resolver_induction (Q := Parser.StandsPastEnd) (fun _ _ _ => trivial)
      (fun _ _ _ => trivial)
      (fun _ h _ _ g _ => g.run_standsPastEnd fun x => h x (Grammar.throughout_true _))
      rules.depth x (Grammar.throughout_true _)

end Descent
