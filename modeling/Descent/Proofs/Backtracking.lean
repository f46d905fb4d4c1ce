import Descent.Parser.Equations
import Descent.Proofs.Parts

/-!
Where a parser ends.

Whatever parser comes of a grammar, and in whatever state it starts: the input is never changed, a
failure leaves the index where the parser found it, and a success moves it forwards and not past the
end (`Rules.parser_backtracks`). Nothing is asked of the grammar. Some parsers set the index back
themselves, the others rely on their operands; so there is one lemma for each way to put parsers
together, and the theorem collects them.
-/

namespace Descent

/-- A state is followed by one further on in the same input. -/
structure State.Follows {a : Alphabet} (s s' : State a) : Prop where
  input : s'.input = s.input
  index_le : s.index ≤ s'.index
  within : s.index ≤ s.input.length → s'.index ≤ s'.input.length

namespace State.Follows

variable {a : Alphabet} {s t u : State a}

theorem of_eq (hinput : t.input = s.input) (hindex : t.index = s.index) : s.Follows t :=
  ⟨hinput, Nat.le_of_eq hindex.symm, by rw [hinput, hindex]; exact id⟩

theorem trans (h : s.Follows t) (h' : t.Follows u) : s.Follows u where
  input := h'.input.trans h.input
  index_le := Nat.le_trans h.index_le h'.index_le
  within hs := h'.within (h.within hs)

theorem advance (s : State a) : s.Follows s.advance := by
  unfold State.advance
  split
  · rename_i h
    exact ⟨rfl, Nat.le_succ _, fun _ => s.hasNext_iff.mp h⟩
  · exact of_eq rfl rfl

theorem moveTo {stop : Nat} (hle : s.index ≤ stop) (hstop : stop ≤ s.input.length) :
    s.Follows (s.moveTo stop) :=
  ⟨rfl, hle, fun _ => hstop⟩

end State.Follows

/-- An outcome of a run from a state: further on if it succeeds, at the same place if it fails. -/
def Outcome.KeepsPlace {a : Alphabet} {α : Type} (s : State a) : Outcome a α → Prop
  | ok _ s' => s.Follows s'
  | fail _ s' => s'.input = s.input ∧ s'.index = s.index
  | fault _ => True

namespace Outcome.KeepsPlace

variable {a : Alphabet} {α β : Type} {s t : State a} {outcome : Outcome a α}

/-- Only the input and the index of the first state count. -/
theorem congr (h : outcome.KeepsPlace s) (hinput : s.input = t.input) (hindex : s.index = t.index) :
    outcome.KeepsPlace t := by
  cases outcome with
  | ok x s' => exact (State.Follows.of_eq hinput hindex).trans h
  | fail severity s' => exact ⟨h.1.trans hinput, h.2.trans hindex⟩
  | fault f => trivial

theorem map (h : outcome.KeepsPlace s) (f : α → β) : (outcome.map f).KeepsPlace s := by
  cases outcome <;> exact h

end Outcome.KeepsPlace

namespace Parser

variable {a : Alphabet} {α β γ : Type}

/-- A parser that fails leaves the index where it found it, and one that succeeds does not go
back. -/
def Backtracks (p : Parser a α) : Prop :=
  ∀ s, (p s).KeepsPlace s

namespace Backtracks

section

variable {p : Parser a α} {s t : State a} {x : α} {severity : Severity}

theorem ok (hp : p.Backtracks) (h : p s = .ok x t) : s.Follows t := by
  have hs := hp s
  rwa [h] at hs

theorem fail (hp : p.Backtracks) (h : p s = .fail severity t) :
    t.input = s.input ∧ t.index = s.index := by
  have hs := hp s
  rwa [h] at hs

end

/-! ## Single units -/

theorem item (extract : a.Item → Option α) (names : List String) :
    (Parser.item extract names).Backtracks := by
  intro s
  unfold Parser.item
  split
  · exact State.Follows.advance s
  · exact ⟨rfl, rfl⟩

theorem atEnd : (Parser.atEnd (a := a)).Backtracks := by
  intro s
  unfold Parser.atEnd
  split
  · exact ⟨rfl, rfl⟩
  · exact State.Follows.of_eq rfl rfl

theorem pure (value : α) : (Parser.pure (a := a) value).Backtracks :=
  fun _ => State.Follows.of_eq rfl rfl

theorem refuse (message : String) : (Parser.refuse (a := a) (α := α) message).Backtracks :=
  fun _ => ⟨rfl, rfl⟩

theorem silent (severity : Severity) : (Parser.silent (a := a) (α := α) severity).Backtracks :=
  fun _ => ⟨rfl, rfl⟩

theorem scan (matcher : List Char → Nat → Option (Nat × α)) (name : String) :
    (Parser.scan matcher name).Backtracks := by
  intro s
  unfold Parser.scan
  split
  · split
    · rename_i h
      exact State.Follows.moveTo h.1 h.2
    · trivial
  · exact ⟨rfl, rfl⟩

/-! ## Sequence and choice -/

variable {p : Parser a α}

theorem map (f : α → β) (hp : p.Backtracks) : (Parser.map f p).Backtracks :=
  fun s => (hp s).map f

theorem seqWith (f : α → β → γ) {q : Parser a β} (hp : p.Backtracks) (hq : q.Backtracks) :
    (Parser.seqWith f p q).Backtracks := by
  intro s
  cases h : p s with
  | ok x t =>
    cases h' : q t with
    | ok y u =>
      rw [seqWith_ok_ok h h']
      exact (hp.ok h).trans (hq.ok h')
    | fail severity u =>
      rw [seqWith_ok_fail h h']
      exact ⟨(hq.fail h').1.trans (hp.ok h).input, rfl⟩
    | fault g => rw [seqWith_ok_fault h h']; trivial
  | fail severity t =>
    rw [seqWith_fail h]
    exact ⟨(hp.fail h).1, rfl⟩
  | fault g => rw [seqWith_fault h]; trivial

theorem orElse {q : Parser a α} (hp : p.Backtracks) (hq : q.Backtracks) :
    (Parser.orElse p q).Backtracks := by
  intro s
  cases h : p s with
  | ok x t => rw [orElse_ok h]; exact hp.ok h
  | fail severity t =>
    cases severity with
    | recoverable =>
      rw [orElse_recoverable h]
      exact (hq _).congr (hp.fail h).1 rfl
    | committed => rw [orElse_committed h]; exact hp.fail h
  | fault g => rw [orElse_fault h]; trivial

theorem optional (hp : p.Backtracks) : (Parser.optional p).Backtracks :=
  .orElse (hp.map some) (.pure none)

/-! ## Lookahead and commitment -/

theorem atomic (hp : p.Backtracks) : (Parser.atomic p).Backtracks := by
  intro s
  cases h : p { s with mark := s.index } with
  | ok x t =>
    rw [atomic_ok h]
    have ht := hp.ok h
    exact ⟨ht.input, ht.index_le, ht.within⟩
  | fail severity t =>
    have ht := hp.fail h
    cases severity with
    | recoverable =>
      by_cases hmark : s.index < t.mark
      · rw [atomic_consumed h hmark]; exact ⟨ht.1, rfl⟩
      · rw [atomic_untouched h hmark]; exact ht
    | committed => rw [atomic_committed h]; exact ht
  | fault g => rw [atomic_fault h]; trivial

theorem peek (hp : p.Backtracks) : (Parser.peek p).Backtracks := by
  intro s
  rw [peek_apply]
  cases h : p s with
  | ok x t => exact State.Follows.of_eq (hp.ok h).input rfl
  | fail severity t => exact ⟨(hp.fail h).1, rfl⟩
  | fault g => trivial

theorem notFollowedBy (hp : p.Backtracks) (name : String) :
    (Parser.notFollowedBy p name).Backtracks := by
  intro s
  cases h : p s.dropFailure with
  | ok x t =>
    rw [notFollowedBy_ok h]
    exact ⟨(hp.ok h).input, rfl⟩
  | fail severity t =>
    rw [notFollowedBy_fail h]
    exact State.Follows.of_eq (hp.fail h).1 rfl
  | fault g => rw [notFollowedBy_fault h]; trivial

/-! ## Repetition -/

/-- A repetition moves forwards. It fails somewhere in the middle, so only the input is kept then. -/
theorem iterate (hp : p.Backtracks) (n : Nat) (s : State a) :
    (∀ xs u, Parser.iterate p n s = .ok xs u → s.Follows u) ∧
    ∀ severity u, Parser.iterate p n s = .fail severity u → u.input = s.input := by
  induction n generalizing s with
  | zero => exact ⟨nofun, nofun⟩
  | succ n ih =>
    cases h : p s with
    | ok x t =>
      by_cases hindex : t.index = s.index
      · rw [iterate_stuck h hindex]; exact ⟨nofun, nofun⟩
      · rw [iterate_moved h hindex]
        have ht := hp.ok h
        obtain ⟨hok, hfail⟩ := ih t
        cases h' : Parser.iterate p n t with
        | ok xs u =>
          refine ⟨?_, nofun⟩
          rintro _ _ ⟨⟩
          exact ht.trans (hok xs u h')
        | fail severity u =>
          refine ⟨nofun, ?_⟩
          rintro _ _ ⟨⟩
          exact (hfail severity u h').trans ht.input
        | fault g => exact ⟨nofun, nofun⟩
    | fail severity t =>
      cases severity with
      | recoverable =>
        rw [iterate_recoverable h]
        refine ⟨?_, nofun⟩
        rintro _ _ ⟨⟩
        exact .of_eq (hp.fail h).1 rfl
      | committed =>
        rw [iterate_committed h]
        refine ⟨nofun, ?_⟩
        rintro _ _ ⟨⟩
        exact (hp.fail h).1
    | fault g => rw [iterate_fault h]; exact ⟨nofun, nofun⟩

theorem many (hp : p.Backtracks) : (Parser.many p).Backtracks := by
  intro s
  obtain ⟨hok, hfail⟩ := iterate hp (s.input.length - s.index + 1) s
  cases h : Parser.iterate p (s.input.length - s.index + 1) s with
  | ok xs t => rw [many_ok h]; exact hok xs t h
  | fail severity t => rw [many_fail h]; exact ⟨hfail severity t h, rfl⟩
  | fault g => rw [many_fault h]; trivial

/-! ## Names -/

theorem label (name : String) (hp : p.Backtracks) : (Parser.label name p).Backtracks := by
  intro s
  cases h : p (s.dropFailure.note (.enter name)) with
  | ok x t =>
    rw [label_ok h]
    have ht := hp.ok h
    exact ⟨ht.input, ht.index_le, ht.within⟩
  | fail severity t =>
    have ht := hp.fail h
    by_cases hbeyond : t.failedBeyond s.index = true
    · rw [label_beyond h hbeyond]; exact ht
    · rw [label_named h hbeyond]; exact ⟨ht.1, rfl⟩
  | fault g => rw [label_fault h]; trivial

theorem traced (name : String) (render : α → String) (hp : p.Backtracks) :
    (Parser.traced name render p).Backtracks := by
  intro s
  cases h : p (s.note (.enter name)) with
  | ok x t =>
    rw [traced_ok h]
    have ht := hp.ok h
    exact ⟨ht.input, ht.index_le, ht.within⟩
  | fail severity t =>
    have ht := hp.fail h
    rw [traced_fail h]
    exact ht
  | fault g => rw [traced_fault h]; trivial

/-! ## Text -/

theorem spanned (f : α → Nat → Nat → List Char → β) {p : Parser .text α} (hp : p.Backtracks) :
    (Parser.spanned f p).Backtracks := by
  intro s
  cases h : p s with
  | ok x t =>
    cases hslice : t.slice? s.index t.index with
    | some text => rw [spanned_ok h hslice]; exact hp.ok h
    | none => rw [spanned_out h hslice]; trivial
  | fail severity t => rw [spanned_fail h]; exact hp.fail h
  | fault g => rw [spanned_fault h]; trivial

theorem staged {grammar : Parser .tokens α} {lexer : Parser .text (List Token)}
    (hlexer : lexer.Backtracks) : (Parser.staged grammar lexer).Backtracks := by
  intro s
  cases h : lexer s.dropFailure with
  | ok tokens t =>
    have ht := hlexer.ok h
    cases h' : grammar { input := tokens, events := t.events } with
    | ok x u => rw [staged_ok_ok h h']; exact ⟨ht.input, ht.index_le, ht.within⟩
    | fail severity u => rw [staged_ok_fail h h']; exact ⟨ht.input, rfl⟩
    | fault g => rw [staged_ok_fault h h']; trivial
  | fail severity t =>
    have ht := hlexer.fail h
    rw [staged_fail h]
    exact ht
  | fault g => rw [staged_fault h]; trivial

/-- A look for a word changes neither the input nor the index. -/
theorem scanWord {words : Parser .text Unit} (hwords : words.Backtracks) {s t : State .text}
    {stop : Option Nat} (h : Parser.scanWord words s = .ok (stop, t)) :
    t.input = s.input ∧ t.index = s.index := by
  cases h' : words s.dropFailure with
  | ok x u => rw [scanWord_ok h'] at h; cases h; exact ⟨(hwords.ok h').input, rfl⟩
  | fail severity u => rw [scanWord_fail h'] at h; cases h; exact ⟨(hwords.fail h').1, rfl⟩
  | fault g => rw [scanWord_fault h'] at h; cases h

theorem slice?_bounds {s : State a} {start stop : Nat} {units : List a.Item}
    (h : s.slice? start stop = some units) : start ≤ stop ∧ stop ≤ s.input.length := by
  unfold State.slice? at h
  split at h
  · assumption
  · cases h

theorem cut (stop : Nat) (kind : String → TokenKind) : (Parser.cut stop kind).Backtracks := by
  intro s
  cases h : s.slice? s.index stop with
  | some chars =>
    rw [cut_ok h]
    exact State.Follows.moveTo (slice?_bounds h).1 (slice?_bounds h).2
  | none => rw [cut_out h]; trivial

theorem terminal (lexicon : Lexicon) {words : Parser .text Unit} (hwords : words.Backtracks) :
    (Parser.terminal lexicon words).Backtracks := by
  intro s
  by_cases hs : s.input.length < s.index ∧ lexicon.operators ≠ []
  · rw [terminal_out hs.1 hs.2]; trivial
  cases h : Parser.scanWord words s with
  | error g => rw [terminal_fault hs h]; trivial
  | ok scanned =>
    obtain ⟨stop, t⟩ := scanned
    obtain ⟨hinput, hindex⟩ := scanWord hwords h
    rcases terminal_scanned hs h with ⟨-, -, h'⟩ | ⟨n, -, -, h'⟩ | ⟨operator, -, -, h'⟩
    · rw [h']; exact ⟨hinput, hindex⟩
    · rw [h']; exact (cut n _ t).congr hinput hindex
    · rw [h']; exact (cut _ _ t).congr hinput hindex

end Backtracks

end Parser

/-! ## Grammars -/

variable {S : Scope} {a : Alphabet} {α : Type}

/-- The parser of a grammar keeps its place if those that references stand for do. -/
theorem Grammar.run_backtracks {resolve : Resolver S} (hresolve : ∀ x, (resolve x).Backtracks)
    (g : Grammar S a α) : (g.run resolve).Backtracks := by
  induction g with
  | item extract names => exact .item extract names
  | atEnd => exact .atEnd
  | pure value => exact .pure value
  | refuse message => exact .refuse message
  | silent severity => exact .silent severity
  | scan matcher name => exact .scan matcher name
  | map f p ih => exact .map f ih
  | seqWith f p q ihp ihq => exact .seqWith f ihp ihq
  | orElse p q ihp ihq => exact .orElse ihp ihq
  | atomic p ih => exact .atomic ih
  | peek p ih => exact .peek ih
  | notFollowedBy p name ih => exact .notFollowedBy ih name
  | many p ih => exact .many ih
  | label name p ih => exact .label name ih
  | traced name render p ih => exact .traced name render ih
  | spanned f p ih => exact .spanned f ih
  | ref x => exact hresolve x
  | staged grammar lexer _ ih => exact .staged ih
  | terminal lexicon words ih => exact .terminal lexicon ih

theorem Bindings.resolver_backtracks (bindings : Bindings S) (depth : Nat) (x : S.Ref) :
    (bindings.resolver depth x).Backtracks :=
  resolver_induction (Q := Parser.Backtracks) (fun _ _ => trivial) (fun _ _ => trivial)
    (fun _ h _ _ g _ => g.run_backtracks fun x => h x (Grammar.throughout_true _)) depth x
    (Grammar.throughout_true _)

/-- Every parser keeps its place: it never changes the input, goes back to where it started when it
fails, and forwards and not past the end when it succeeds. -/
theorem Rules.parser_backtracks (rules : Rules S) (g : Grammar S a α) :
    (rules.parser g).Backtracks :=
  g.run_backtracks (rules.bindings.resolver_backtracks rules.depth)

end Descent
