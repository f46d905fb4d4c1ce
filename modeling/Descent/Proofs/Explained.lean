import Descent.Proofs.Tokens

/-!
Failures have their reasons on record.

Which failures are to have one, and how far back it may lie, is a `Demand`. One proof serves them all
(`Rules.parser_meets`). Only a parser that fails without a word breaks it, since where failures are
put away (names, lookahead) another one is recorded in their stead; of the lexer of two stages, which
puts its own away, it is asked not to fail (`Grammar.LexesFor`). So a failure that lets alternatives
be tried has a reason no further back than the parser started (`Rules.parser_explains`).
-/

namespace Descent

/-- A failure is on record that is at an index or beyond. -/
def State.FailedFrom {a : Alphabet} (s : State a) (index : Nat) : Prop :=
  ∃ failure, s.failure = some failure ∧ index ≤ failure.position

namespace State.FailedFrom

variable {a : Alphabet} {s : State a} {i j : Nat}

theorem mono (h : s.FailedFrom j) (hij : i ≤ j) : s.FailedFrom i := by
  obtain ⟨failure, hfailure, hle⟩ := h
  exact ⟨failure, hfailure, Nat.le_trans hij hle⟩

theorem record (s : State a) {failure : Failure} (h : i ≤ failure.position) :
    (s.record failure).FailedFrom i :=
  ⟨_, rfl, Nat.le_trans h (Failure.position_le_record s.failure failure)⟩

theorem expect (s : State a) (names : List String) : (s.expect names).FailedFrom s.index :=
  record s (Nat.le_refl s.index)

theorem refuse (s : State a) (message : String) : (s.refuse message).FailedFrom s.index :=
  record s (Nat.le_refl s.index)

/-- An earlier failure may take the place of a later one only by being further on. -/
theorem absorb (h : s.FailedFrom i) (earlier : Option Failure) : (s.absorb earlier).FailedFrom i := by
  obtain ⟨failure, hfailure, hle⟩ := h
  refine ⟨Failure.record earlier failure, ?_,
    Nat.le_trans hle (Failure.position_le_record earlier failure)⟩
  unfold State.absorb
  rw [hfailure, Failure.furthest_some]

theorem of_failedBeyond (h : s.failedBeyond i = true) : s.FailedFrom i := by
  unfold State.failedBeyond at h
  split at h
  · rename_i failure hfailure
    exact ⟨failure, hfailure, Nat.le_of_lt (of_decide_eq_true h)⟩
  · cases h

end State.FailedFrom

/-- A failure among tokens that begin at an index or later is moved there or beyond. -/
theorem Failure.le_position_toSource (failure : Failure) {tokens : List Token} (text : List Char)
    {start stopped : Nat} (htokens : ∀ token ∈ tokens, start ≤ token.start) (hle : start ≤ stopped) :
    start ≤ (failure.toSource tokens text stopped).position := by
  unfold Failure.toSource
  split
  · rename_i token htoken
    exact htokens token (List.mem_of_getElem? htoken)
  · split <;> exact hle

/-- A failure among tokens that begin at an index or earlier is moved there or before. -/
theorem Failure.position_toSource_le (failure : Failure) {tokens : List Token} (text : List Char)
    {stopped stop : Nat} (htokens : ∀ token ∈ tokens, token.start ≤ stop) (hle : stopped ≤ stop) :
    (failure.toSource tokens text stopped).position ≤ stop := by
  unfold Failure.toSource
  split
  · rename_i token htoken
    exact htokens token (List.mem_of_getElem? htoken)
  · split <;> exact hle

/-- What is asked of failures: whether one of a severity, in a run from a state, is to have a reason
on record at an index or beyond. -/
structure Demand where
  asks {a : Alphabet} : State a → Severity → Nat → Prop
  /-- No reason is asked for that lies beyond the place. -/
  le_index {a : Alphabet} {s : State a} {severity : Severity} {i : Nat} :
    asks s severity i → i ≤ s.index
  /-- What is asked somewhere is asked further on. -/
  follows {a : Alphabet} {s t : State a} {severity : Severity} {i : Nat} (hst : s.Follows t) :
    asks s severity i → asks t severity i
  /-- No more is asked of commitments than of other failures. -/
  recoverable {a : Alphabet} {s : State a} {severity : Severity} {i : Nat} :
    asks s severity i → asks s .recoverable i
  /-- Among tokens any reason will do, since all of them are found further on. -/
  tokens {s : State .text} {severity : Severity} {i : Nat} (input : List Token)
    (events : List Trace.Event) :
    asks s severity i → asks (a := .tokens) { input, events } severity 0

/-- A failure that lets alternatives be tried is to have a reason no further back than the run
started. -/
def Demand.ofRecoverable : Demand where
  asks s severity i := severity = .recoverable ∧ i ≤ s.index
  le_index h := h.2
  follows hst h := ⟨h.1, Nat.le_trans h.2 hst.index_le⟩
  recoverable h := ⟨rfl, h.2⟩
  tokens _ _ h := ⟨h.1, Nat.le_refl 0⟩

theorem Demand.of_eq {a : Alphabet} (d : Demand) {s t : State a} {severity : Severity} {i : Nat}
    (hi : d.asks s severity i) (hinput : t.input = s.input) (hindex : t.index = s.index) :
    d.asks t severity i :=
  d.follows (.of_eq hinput hindex) hi

namespace Parser

variable {a : Alphabet} {α β γ : Type}

/-- A parser whose failures have the reasons that are asked for. -/
def Meets (d : Demand) (p : Parser a α) : Prop :=
  ∀ s severity t i, d.asks s severity i → p s = .fail severity t → t.FailedFrom i

namespace Meets

variable {d : Demand} {p : Parser a α}

/-! ## Single units -/

theorem item (extract : a.Item → Option α) (names : List String) :
    (Parser.item extract names).Meets d := by
  intro s severity t i hi h
  unfold Parser.item at h
  split at h
  · cases h
  · cases h; exact (State.FailedFrom.expect s names).mono (d.le_index hi)

theorem atEnd : (Parser.atEnd (a := a)).Meets d := by
  intro s severity t i hi h
  unfold Parser.atEnd at h
  split at h
  · cases h; exact (State.FailedFrom.expect s ["EOF"]).mono (d.le_index hi)
  · cases h

theorem refuse (message : String) : (Parser.refuse (a := a) (α := α) message).Meets d := by
  rintro s _ _ i hi ⟨⟩
  exact (State.FailedFrom.refuse s message).mono (d.le_index hi)

theorem scan (matcher : List Char → Nat → Option (Nat × α)) (name : String) :
    (Parser.scan matcher name).Meets d := by
  intro s severity t i hi h
  unfold Parser.scan at h
  split at h
  · split at h <;> cases h
  · cases h; exact (State.FailedFrom.expect s [name]).mono (d.le_index hi)

/-! ## Sequence and choice -/

theorem map (f : α → β) (hp : p.Meets d) : (Parser.map f p).Meets d := by
  intro s severity t i hi h
  rw [map_apply] at h
  cases hps : p s with
  | ok x u => rw [hps] at h; cases h
  | fail severity u => rw [hps] at h; cases h; exact hp s _ _ i hi hps
  | fault g => rw [hps] at h; cases h

theorem seqWith (f : α → β → γ) {q : Parser a β} (hb : p.Backtracks) (hp : p.Meets d)
    (hq : q.Meets d) : (Parser.seqWith f p q).Meets d := by
  intro s severity v i hi h
  cases hps : p s with
  | ok x t =>
    cases hqt : q t with
    | ok y u => rw [seqWith_ok_ok hps hqt] at h; cases h
    | fail severity u =>
      rw [seqWith_ok_fail hps hqt] at h
      cases h
      exact hq t _ u i (d.follows (hb.ok hps) hi) hqt
    | fault g => rw [seqWith_ok_fault hps hqt] at h; cases h
  | fail severity t => rw [seqWith_fail hps] at h; cases h; exact hp s _ t i hi hps
  | fault g => rw [seqWith_fault hps] at h; cases h

theorem orElse {q : Parser a α} (hb : p.Backtracks) (hp : p.Meets d) (hq : q.Meets d) :
    (Parser.orElse p q).Meets d := by
  intro s severity u i hi h
  cases hps : p s with
  | ok x t => rw [orElse_ok hps] at h; cases h
  | fail severity' t =>
    cases severity' with
    | recoverable =>
      rw [orElse_recoverable hps] at h
      exact hq (t.restore s.index) severity u i (d.of_eq hi (hb.fail hps).1 rfl) h
    | committed => rw [orElse_committed hps] at h; cases h; exact hp s _ _ i hi hps
  | fault g => rw [orElse_fault hps] at h; cases h

/-! ## Lookahead and commitment -/

/-- A commitment has the reason of the failure that it comes from. -/
theorem atomic (hp : p.Meets d) : (Parser.atomic p).Meets d := by
  intro s severity u i hi h
  have hmarked : d.asks { s with mark := s.index } severity i := d.of_eq hi rfl rfl
  cases hps : p { s with mark := s.index } with
  | ok x t => rw [atomic_ok hps] at h; cases h
  | fail severity' t =>
    cases severity' with
    | recoverable =>
      have ht := hp _ _ t i (d.recoverable hmarked) hps
      by_cases hmark : s.index < t.mark
      · rw [atomic_consumed hps hmark] at h; cases h; exact ht
      · rw [atomic_untouched hps hmark] at h; cases h; exact ht
    | committed => rw [atomic_committed hps] at h; cases h; exact hp _ _ t i hmarked hps
  | fault g => rw [atomic_fault hps] at h; cases h

theorem peek (hp : p.Meets d) : (Parser.peek p).Meets d := by
  intro s severity u i hi h
  rw [peek_apply] at h
  cases hps : p s with
  | ok x t => rw [hps] at h; cases h
  | fail severity t => rw [hps] at h; cases h; exact hp s _ t i hi hps
  | fault g => rw [hps] at h; cases h

theorem notFollowedBy (p : Parser a α) (name : String) :
    (Parser.notFollowedBy p name).Meets d := by
  intro s severity u i hi h
  cases hps : p s.dropFailure with
  | ok x t =>
    have hle : i ≤ s.index := d.le_index hi
    rw [notFollowedBy_ok hps] at h
    cases h
    exact (State.FailedFrom.refuse (s.afterLook t) _).mono hle
  | fail severity t => rw [notFollowedBy_fail hps] at h; cases h
  | fault g => rw [notFollowedBy_fault hps] at h; cases h

/-! ## Repetition -/

theorem iterate (hb : p.Backtracks) (hp : p.Meets d) (n : Nat) : (Parser.iterate p n).Meets d := by
  induction n with
  | zero => exact fun _ _ _ _ _ => nofun
  | succ n ih =>
    intro s severity u i hi h
    cases hps : p s with
    | ok x t =>
      by_cases hindex : t.index = s.index
      · rw [iterate_stuck hps hindex] at h; cases h
      · rw [iterate_moved hps hindex] at h
        exact map (x :: ·) ih t severity u i (d.follows (hb.ok hps) hi) h
    | fail severity' t =>
      cases severity' with
      | recoverable => rw [iterate_recoverable hps] at h; cases h
      | committed => rw [iterate_committed hps] at h; cases h; exact hp s _ _ i hi hps
    | fault g => rw [iterate_fault hps] at h; cases h

theorem many (hb : p.Backtracks) (hp : p.Meets d) : (Parser.many p).Meets d := by
  intro s severity u i hi h
  cases hps : Parser.iterate p (s.input.length - s.index + 1) s with
  | ok xs t => rw [many_ok hps] at h; cases h
  | fail severity t => rw [many_fail hps] at h; cases h; exact iterate hb hp _ s _ t i hi hps
  | fault g => rw [many_fault hps] at h; cases h

/-! ## Names -/

/-- The name itself is the reason where the parser left none beyond its start. -/
theorem label (name : String) (p : Parser a α) : (Parser.label name p).Meets d := by
  intro s severity u i hi h
  refine State.FailedFrom.mono (j := s.index) ?_ (d.le_index hi)
  cases hps : p (s.dropFailure.note (.enter name)) with
  | ok x t => rw [label_ok hps] at h; cases h
  | fail severity t =>
    by_cases hbeyond : t.failedBeyond s.index = true
    · rw [label_beyond hps hbeyond] at h
      cases h
      have hleft : (t.note .leave).FailedFrom s.index := State.FailedFrom.of_failedBeyond hbeyond
      exact hleft.absorb _
    · rw [label_named hps hbeyond] at h
      cases h
      exact (State.FailedFrom.expect (((t.note .leave).dropFailure).restore s.index) [name]).absorb _
  | fault g => rw [label_fault hps] at h; cases h

theorem traced (name : String) (render : α → String) (hp : p.Meets d) :
    (Parser.traced name render p).Meets d := by
  intro s severity u i hi h
  have hnoted : d.asks (s.note (.enter name)) severity i := d.of_eq hi rfl rfl
  cases hps : p (s.note (.enter name)) with
  | ok x t => rw [traced_ok hps] at h; cases h
  | fail severity t => rw [traced_fail hps] at h; cases h; exact hp _ _ t i hnoted hps
  | fault g => rw [traced_fault hps] at h; cases h

/-! ## Text -/

theorem spanned (f : α → Nat → Nat → List Char → β) {p : Parser .text α} (hp : p.Meets d) :
    (Parser.spanned f p).Meets d := by
  intro s severity u i hi h
  cases hps : p s with
  | ok x t =>
    cases hslice : t.slice? s.index t.index with
    | some text => rw [spanned_ok hps hslice] at h; cases h
    | none => rw [spanned_out hps hslice] at h; cases h
  | fail severity t => rw [spanned_fail hps] at h; cases h; exact hp s _ _ i hi hps
  | fault g => rw [spanned_fault hps] at h; cases h

/-- Where a reason is asked for, the lexer does not fail and finds its tokens further on; so the
reason lies among the tokens, or where lexing stopped. -/
theorem staged {grammar : Parser .tokens α} {lexer : Parser .text (List Token)}
    (hgrammar : grammar.Meets d) (hb : lexer.Backtracks)
    (hlexer : ∀ s severity i, d.asks s severity i → (∀ t, lexer s ≠ .fail severity t) ∧
      ∀ tokens t, lexer s = .ok tokens t → ∀ token ∈ tokens, i ≤ token.start) :
    (Parser.staged grammar lexer).Meets d := by
  intro s severity v i hi h
  obtain ⟨hfail, htokens⟩ := hlexer s.dropFailure severity i (d.of_eq hi rfl rfl)
  cases hls : lexer s.dropFailure with
  | ok tokens t =>
    cases hgs : grammar { input := tokens, events := t.events } with
    | ok x u => rw [staged_ok_ok hls hgs] at h; cases h
    | fail severity u =>
      rw [staged_ok_fail hls hgs] at h
      cases h
      obtain ⟨failure, hfailure, -⟩ := hgrammar _ _ u 0 (d.tokens tokens t.events hi) hgs
      have hstopped : i ≤ t.index := Nat.le_trans (d.le_index hi) (hb.ok hls).index_le
      have hle := failure.le_position_toSource t.input (htokens tokens t hls) hstopped
      refine ⟨Failure.record s.failure (failure.toSource tokens t.input t.index), ?_,
        Nat.le_trans hle (Failure.position_le_record _ _)⟩
      simp only [State.restore, State.afterStages, hfailure, Option.map_some,
        Failure.furthest_some]
    | fault g => rw [staged_ok_fault hls hgs] at h; cases h
  | fail severity' t => rw [staged_fail hls] at h; cases h; exact absurd hls (hfail t)
  | fault g => rw [staged_fault hls] at h; cases h

theorem cut (stop : Nat) (kind : String → TokenKind) : (Parser.cut stop kind).Meets d := by
  intro s severity t i _ h
  cases hslice : s.slice? s.index stop with
  | some chars => rw [cut_ok hslice] at h; cases h
  | none => rw [cut_out hslice] at h; cases h

theorem terminal (lexicon : Lexicon) {words : Parser .text Unit} (hb : words.Backtracks) :
    (Parser.terminal lexicon words).Meets d := by
  intro s severity u i hi h
  by_cases hs : s.input.length < s.index ∧ lexicon.operators ≠ []
  · rw [terminal_out hs.1 hs.2] at h; cases h
  cases hscan : Parser.scanWord words s with
  | error g => rw [terminal_fault hs hscan] at h; cases h
  | ok scanned =>
    obtain ⟨stop, t⟩ := scanned
    obtain ⟨hinput, hindex⟩ := Backtracks.scanWord hb hscan
    have ht : d.asks t severity i := d.of_eq hi hinput hindex
    rcases terminal_scanned hs hscan with ⟨-, -, h'⟩ | ⟨n, -, -, h'⟩ | ⟨operator, -, -, h'⟩
    · rw [h'] at h; cases h; exact (State.FailedFrom.expect t _).mono (d.le_index ht)
    · rw [h'] at h; exact cut n _ t severity u i ht h
    · rw [h'] at h; exact cut _ _ t severity u i ht h

end Meets

end Parser

/-! ## Grammars -/

variable {S : Scope} {a : Alphabet} {α : Type}

namespace Grammar

/-- If the outermost part reads tokens, its lexer does not fail where a reason is asked for, and
finds its tokens no further back. -/
def LexesFor (d : Demand) (bindings : Bindings S) :
    {a : Alphabet} → {α : Type} → Grammar S a α → Prop
  | _, _, staged _ found => ∀ depth s severity i, d.asks s severity i →
      (∀ t, found.run (bindings.resolver depth) s ≠ .fail severity t) ∧
      ∀ tokens t, found.run (bindings.resolver depth) s = .ok tokens t →
        ∀ token ∈ tokens, i ≤ token.start
  | _, _, _ => True

/-- The parser of a grammar meets a demand if those that references stand for do. -/
theorem run_meets {d : Demand} {bindings : Bindings S} {depth : Nat}
    (hresolve : ∀ x, (ref x).Throughout bindings
      (fun part => part.grammar.Vocal ∧ part.grammar.LexesFor d bindings) →
      (bindings.resolver depth x).Meets d)
    (g : Grammar S a α) (hg : g.Throughout bindings fun part =>
      part.grammar.Vocal ∧ part.grammar.LexesFor d bindings) :
    (g.run (bindings.resolver depth)).Meets d := by
  have hb := bindings.resolver_backtracks depth
  induction g with
  | item extract names => exact .item extract names
  | atEnd => exact .atEnd
  | pure value => exact fun _ _ _ _ _ => nofun
  | refuse message => exact .refuse message
  | silent severity => exact hg.self.1.elim
  | scan matcher name => exact .scan matcher name
  | map f p ih => exact .map f (ih (hg.operand (.head _)))
  | seqWith f p q ihp ihq =>
    exact .seqWith f (p.run_backtracks hb) (ihp (hg.operand (.head _)))
      (ihq (hg.operand (.tail _ (.head _))))
  | orElse p q ihp ihq =>
    exact .orElse (p.run_backtracks hb) (ihp (hg.operand (.head _)))
      (ihq (hg.operand (.tail _ (.head _))))
  | atomic p ih => exact .atomic (ih (hg.operand (.head _)))
  | peek p ih => exact .peek (ih (hg.operand (.head _)))
  | notFollowedBy p name _ => exact .notFollowedBy _ name
  | many p ih => exact .many (p.run_backtracks hb) (ih (hg.operand (.head _)))
  | label name p _ => exact .label name _
  | traced name render p ih => exact .traced name render (ih (hg.operand (.head _)))
  | spanned f p ih => exact .spanned f (ih (hg.operand (.head _)))
  | ref x => exact hresolve x hg
  | staged grammar found ih _ =>
    exact .staged (ih (hg.operand (.head _))) (found.run_backtracks hb) (hg.self.2 depth)
  | terminal lexicon words _ => exact .terminal lexicon (words.run_backtracks hb)

/-- A grammar whose outermost part is made by the library and does not fail without a word. -/
def Accountable (g : Grammar S a α) : Prop :=
  g.Proper ∧ g.Vocal

/-- A lexer of the library never fails in a way that lets alternatives be tried. -/
theorem Proper.lexesFor {bindings : Bindings S} {g : Grammar S a α} (hg : g.Proper) :
    g.LexesFor .ofRecoverable bindings := by
  cases g with
  | staged grammar found =>
    obtain ⟨_, tokenizer, delimiter, -, rfl, htokenizer⟩ := hg
    rintro depth s _ i ⟨rfl, hi⟩
    refine ⟨lexer_ne_recoverable tokenizer delimiter s, fun tokens t h token htoken => ?_⟩
    exact Nat.le_trans hi
      (lexer_token_start (bindings.resolver_backtracks depth) htokenizer h token htoken)
  | _ => trivial

end Grammar

/-- A parser has the reasons that are asked for if nothing in it fails without a word and no lexer in
it keeps one back. -/
theorem Rules.parser_meets {d : Demand} {rules : Rules S} {g : Grammar S a α}
    (hg : g.Throughout rules.bindings fun part =>
      part.grammar.Vocal ∧ part.grammar.LexesFor d rules.bindings) :
    (rules.parser g).Meets d :=
  g.run_meets
    (Bindings.resolver_induction (Q := Parser.Meets d) (fun _ _ _ _ _ _ => nofun)
      (fun _ _ _ _ _ _ => nofun) (fun _ h _ _ g hg => g.run_meets h hg) rules.depth) hg

/-- A parser that leaves a reason whenever it fails recoverably. -/
def Parser.Explains (p : Parser a α) : Prop :=
  ∀ s t, p s = .fail .recoverable t → t.FailedFrom s.index

/-- A parser put together by the library, without silent ones, explains its recoverable failures. -/
theorem Rules.parser_explains {rules : Rules S} {g : Grammar S a α}
    (hg : g.Throughout rules.bindings fun part => part.grammar.Accountable) :
    (rules.parser g).Explains := by
  have hmeets : (rules.parser g).Meets .ofRecoverable :=
    Rules.parser_meets fun part hpart => ⟨(hg part hpart).2, (hg part hpart).1.lexesFor⟩
  exact fun s t h => hmeets s .recoverable t s.index ⟨rfl, Nat.le_refl _⟩ h

end Descent
