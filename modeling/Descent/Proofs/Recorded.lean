import Descent.Proofs.Furthest
import Descent.Proofs.Tiling

/-!
What holds of every failure on record.

Failures come about in three ways: they are recorded at a place of the input, two at one index are
united, and those among tokens are moved to the text. What these three keep (`Failure.Law`) holds of
all that a run leaves on record, however failures are put away and taken up again on the way
(`Rules.parser_lawful`). So no failure lies past the end of its input (`Failure.law_position_le`).
-/

namespace Descent

/-- A statement about failures in an input that holds of what is recorded, united and moved. -/
structure Failure.Law (holds : (a : Alphabet) → List a.Item → Failure → Prop) : Prop where
  recorded {a : Alphabet} (s : State a) (names : List String) (message : Option String)
    (hs : s.index ≤ s.input.length) :
    holds a s.input ⟨s.index, addNames [] names, message, s.encountered⟩
  merge {a : Alphabet} {input : List a.Item} {first second : Failure}
    (hposition : second.position = first.position) (hfirst : holds a input first)
    (hsecond : holds a input second) : holds a input (first.merge second)
  toSource {text : List Char} {tokens : List Token} {stopped : Nat} {failure : Failure}
    (htokens : ∀ token ∈ tokens, token.IsPieceOf text) (hstopped : stopped ≤ text.length)
    (h : holds .tokens tokens failure) : holds .text text (failure.toSource tokens text stopped)

variable {holds : (a : Alphabet) → List a.Item → Failure → Prop} {a : Alphabet}

namespace Failure.Law

variable (law : Failure.Law holds) {input : List a.Item}

include law

theorem record {kept : Option Failure} {new : Failure}
    (hkept : ∀ f, kept = some f → holds a input f) (hnew : holds a input new) :
    holds a input (Failure.record kept new) := by
  cases kept with
  | none => exact hnew
  | some kept =>
    rcases Nat.lt_trichotomy new.position kept.position with h | h | h
    · rw [record_of_lt h]; exact hkept kept rfl
    · rw [record_of_eq h]; exact law.merge h (hkept kept rfl) hnew
    · rw [record_of_gt h]; exact hnew

theorem furthest {earlier since : Option Failure}
    (hearlier : ∀ f, earlier = some f → holds a input f)
    (hsince : ∀ f, since = some f → holds a input f) :
    ∀ f, Failure.furthest earlier since = some f → holds a input f := by
  intro f hf
  cases since with
  | none => exact hearlier f hf
  | some new => rw [furthest_some] at hf; cases hf; exact law.record hearlier (hsince new rfl)

end Failure.Law

/-- A state within an input whose failure, if there is one, keeps the law. -/
structure State.Lawful (holds : (a : Alphabet) → List a.Item → Failure → Prop)
    (input : List a.Item) (s : State a) : Prop where
  input_eq : s.input = input
  index_le : s.index ≤ input.length
  failure : ∀ f, s.failure = some f → holds a input f

namespace State.Lawful

variable {input : List a.Item} {s t : State a}

/-- Nothing is on record where a run begins. -/
theorem start (input : List a.Item) (events : List Trace.Event) :
    ({ input, events } : State a).Lawful holds input :=
  ⟨rfl, Nat.zero_le _, nofun⟩

/-- The mark and the events are not subject to the law. -/
theorem congr (h : s.Lawful holds input) (hinput : t.input = s.input) (hindex : t.index = s.index)
    (hfailure : t.failure = s.failure) : t.Lawful holds input :=
  ⟨hinput.trans h.input_eq, hindex ▸ h.index_le, hfailure ▸ h.failure⟩

theorem moved (h : s.Lawful holds input) (hinput : t.input = s.input)
    (hindex : t.index ≤ input.length) (hfailure : t.failure = s.failure) :
    t.Lawful holds input :=
  ⟨hinput.trans h.input_eq, hindex, hfailure ▸ h.failure⟩

theorem restore (h : t.Lawful holds input) (hs : s.Lawful holds input) :
    (t.restore s.index).Lawful holds input :=
  h.moved rfl hs.index_le rfl

theorem dropFailure (h : s.Lawful holds input) : s.dropFailure.Lawful holds input :=
  ⟨h.input_eq, h.index_le, nofun⟩

theorem absorb (law : Failure.Law holds) (h : t.Lawful holds input) (hs : s.Lawful holds input) :
    (t.absorb s.failure).Lawful holds input :=
  ⟨h.input_eq, h.index_le, law.furthest hs.failure h.failure⟩

theorem record (law : Failure.Law holds) (h : s.Lawful holds input) {f : Failure}
    (hf : holds a input f) : (s.record f).Lawful holds input := by
  refine ⟨h.input_eq, h.index_le, ?_⟩
  rintro _ ⟨⟩
  exact law.record h.failure hf

theorem expect (law : Failure.Law holds) (h : s.Lawful holds input) (names : List String) :
    (s.expect names).Lawful holds input := by
  obtain rfl := h.input_eq
  exact h.record law (law.recorded s names none h.index_le)

theorem refuse (law : Failure.Law holds) (h : s.Lawful holds input) (message : String) :
    (s.refuse message).Lawful holds input := by
  obtain rfl := h.input_eq
  exact h.record law (law.recorded s [] (some message) h.index_le)

theorem advance (h : s.Lawful holds input) : s.advance.Lawful holds input := by
  unfold State.advance
  split
  · rename_i hnext
    have hlt : s.index < s.input.length := s.hasNext_iff.mp hnext
    exact h.moved rfl (h.input_eq ▸ hlt) rfl
  · exact h

/-- What a look leaves is subject to the law only where it began. -/
theorem afterLook (hs : s.Lawful holds input) (ht : t.Lawful holds input) :
    (s.afterLook t).Lawful holds input :=
  ⟨ht.input_eq, hs.index_le, hs.failure⟩

end State.Lawful

/-- The state in which an outcome leaves the input has a property, if it leaves one. -/
def Outcome.Ends {α : Type} (P : State a → Prop) : Outcome a α → Prop
  | ok _ t => P t
  | fail _ t => P t
  | fault _ => True

theorem Outcome.Ends.of_ok {α : Type} {P : State a → Prop} {outcome : Outcome a α} {x : α}
    {t : State a} (h : outcome.Ends P) (hok : outcome = .ok x t) : P t := by
  subst hok
  exact h

theorem Outcome.Ends.of_fail {α : Type} {P : State a → Prop} {outcome : Outcome a α}
    {severity : Severity} {t : State a} (h : outcome.Ends P) (hfail : outcome = .fail severity t) :
    P t := by
  subst hfail
  exact h

theorem Outcome.Ends.imp {α : Type} {P Q : State a → Prop} {outcome : Outcome a α}
    (h : outcome.Ends P) (hPQ : ∀ t, P t → Q t) : outcome.Ends Q := by
  cases outcome with
  | ok x t => exact hPQ t h
  | fail severity t => exact hPQ t h
  | fault g => trivial

theorem Outcome.Ends.map {α β : Type} {P : State a → Prop} {outcome : Outcome a α} (f : α → β)
    (h : outcome.Ends P) : (outcome.map f).Ends P := by
  cases outcome <;> exact h

theorem Outcome.Ends.mapState {α : Type} {P Q : State a → Prop} {outcome : Outcome a α}
    {f : State a → State a} (h : outcome.Ends P) (hf : ∀ t, P t → Q (f t)) :
    (outcome.mapState f).Ends Q := by
  cases outcome with
  | ok x t => exact hf t h
  | fail severity t => exact hf t h
  | fault g => trivial

theorem Outcome.Ends.backTo {α : Type} {P : State a → Prop} {outcome : Outcome a α} {index : Nat}
    (h : outcome.Ends P) (hP : ∀ t, P t → P (t.restore index)) : (outcome.backTo index).Ends P := by
  cases outcome with
  | ok x t => exact h
  | fail severity t => exact hP t h
  | fault g => trivial

namespace Parser

variable {α β γ : Type}

/-- A parser that keeps the law. -/
def Lawful (holds : (a : Alphabet) → List a.Item → Failure → Prop) (p : Parser a α) : Prop :=
  ∀ input s, s.Lawful holds input → (p s).Ends (State.Lawful holds input)

namespace Lawful

section

variable {p : Parser a α} {input : List a.Item} {s t : State a} {x : α} {severity : Severity}

theorem ok (hp : p.Lawful holds) (hs : s.Lawful holds input) (h : p s = .ok x t) :
    t.Lawful holds input :=
  (hp input s hs).of_ok h

theorem fail (hp : p.Lawful holds) (hs : s.Lawful holds input) (h : p s = .fail severity t) :
    t.Lawful holds input :=
  (hp input s hs).of_fail h

end

variable {p : Parser a α} (law : Failure.Law holds)

/-! ## Sequence and choice -/

theorem map (f : α → β) (hp : p.Lawful holds) : (Parser.map f p).Lawful holds :=
  fun input s hs => (hp input s hs).map f

theorem seqWith (f : α → β → γ) {q : Parser a β} (hp : p.Lawful holds) (hq : q.Lawful holds) :
    (Parser.seqWith f p q).Lawful holds := by
  intro input s hs
  cases hps : p s with
  | ok x t =>
    have ht := hp.ok hs hps
    cases hqt : q t with
    | ok y u => rw [seqWith_ok_ok hps hqt]; exact hq.ok ht hqt
    | fail severity u => rw [seqWith_ok_fail hps hqt]; exact (hq.fail ht hqt).restore hs
    | fault g => rw [seqWith_ok_fault hps hqt]; trivial
  | fail severity t => rw [seqWith_fail hps]; exact (hp.fail hs hps).restore hs
  | fault g => rw [seqWith_fault hps]; trivial

theorem orElse {q : Parser a α} (hp : p.Lawful holds) (hq : q.Lawful holds) :
    (Parser.orElse p q).Lawful holds := by
  intro input s hs
  cases hps : p s with
  | ok x t => rw [orElse_ok hps]; exact hp.ok hs hps
  | fail severity t =>
    have ht := hp.fail hs hps
    cases severity with
    | recoverable => rw [orElse_recoverable hps]; exact hq input _ (ht.restore hs)
    | committed => rw [orElse_committed hps]; exact ht
  | fault g => rw [orElse_fault hps]; trivial

/-! ## Lookahead and commitment -/

theorem atomic (hp : p.Lawful holds) : (Parser.atomic p).Lawful holds := by
  intro input s hs
  have hmarked : ({ s with mark := s.index } : State a).Lawful holds input := hs.congr rfl rfl rfl
  cases hps : p { s with mark := s.index } with
  | ok x t => rw [atomic_ok hps]; exact (hp.ok hmarked hps).congr rfl rfl rfl
  | fail severity t =>
    have ht : (t.raiseMark s.mark).Lawful holds input := (hp.fail hmarked hps).congr rfl rfl rfl
    cases severity with
    | recoverable =>
      by_cases hmark : s.index < t.mark
      · rw [atomic_consumed hps hmark]; exact ht.restore hs
      · rw [atomic_untouched hps hmark]; exact ht
    | committed => rw [atomic_committed hps]; exact ht
  | fault g => rw [atomic_fault hps]; trivial

theorem peek (hp : p.Lawful holds) : (Parser.peek p).Lawful holds :=
  fun input s hs => (hp input s hs).mapState fun _ ht => ht.moved rfl hs.index_le rfl

/-! ## Repetition -/

theorem iterate (hp : p.Lawful holds) (n : Nat) : (Parser.iterate p n).Lawful holds := by
  induction n with
  | zero => exact fun _ _ _ => trivial
  | succ n ih =>
    intro input s hs
    cases hps : p s with
    | ok x t =>
      by_cases hindex : t.index = s.index
      · rw [iterate_stuck hps hindex]; trivial
      · rw [iterate_moved hps hindex]; exact (ih input t (hp.ok hs hps)).map _
    | fail severity t =>
      have ht := hp.fail hs hps
      cases severity with
      | recoverable => rw [iterate_recoverable hps]; exact ht.restore hs
      | committed => rw [iterate_committed hps]; exact ht
    | fault g => rw [iterate_fault hps]; trivial

theorem many (hp : p.Lawful holds) : (Parser.many p).Lawful holds := by
  intro input s hs
  have hrounds := hp.iterate (s.input.length - s.index + 1)
  cases hps : Parser.iterate p (s.input.length - s.index + 1) s with
  | ok xs t => rw [many_ok hps]; exact hrounds.ok hs hps
  | fail severity t => rw [many_fail hps]; exact (hrounds.fail hs hps).restore hs
  | fault g => rw [many_fault hps]; trivial

theorem traced (name : String) (render : α → String) (hp : p.Lawful holds) :
    (Parser.traced name render p).Lawful holds := by
  intro input s hs
  have hnoted : (s.note (.enter name)).Lawful holds input := hs.congr rfl rfl rfl
  cases hps : p (s.note (.enter name)) with
  | ok x t => rw [traced_ok hps]; exact (hp.ok hnoted hps).congr rfl rfl rfl
  | fail severity t => rw [traced_fail hps]; exact (hp.fail hnoted hps).congr rfl rfl rfl
  | fault g => rw [traced_fault hps]; trivial

theorem spanned (f : α → Nat → Nat → List Char → β) {p : Parser .text α} (hp : p.Lawful holds) :
    (Parser.spanned f p).Lawful holds := by
  intro input s hs
  cases hps : p s with
  | ok x t =>
    cases hslice : t.slice? s.index t.index with
    | some text => rw [spanned_ok hps hslice]; exact hp.ok hs hps
    | none => rw [spanned_out hps hslice]; trivial
  | fail severity t => rw [spanned_fail hps]; exact hp.fail hs hps
  | fault g => rw [spanned_fault hps]; trivial

/-! ## What records failures -/

include law

theorem item (extract : a.Item → Option α) (names : List String) :
    (Parser.item extract names).Lawful holds := by
  intro input s hs
  unfold Parser.item
  split
  · exact hs.advance
  · exact hs.expect law names

theorem atEnd : (Parser.atEnd (a := a)).Lawful holds := by
  intro input s hs
  unfold Parser.atEnd
  split
  · exact hs.expect law ["EOF"]
  · exact hs

theorem refuse (message : String) : (Parser.refuse (a := a) (α := α) message).Lawful holds :=
  fun _ _ hs => hs.refuse law message

theorem scan (matcher : List Char → Nat → Option (Nat × α)) (name : String) :
    (Parser.scan matcher name).Lawful holds := by
  intro input s hs
  unfold Parser.scan
  split
  · rename_i stop value _
    split
    · rename_i hbounds
      exact hs.moved rfl (hs.input_eq ▸ hbounds.2) rfl
    · trivial
  · exact hs.expect law [name]

theorem notFollowedBy (name : String) (hp : p.Lawful holds) :
    (Parser.notFollowedBy p name).Lawful holds := by
  intro input s hs
  cases hps : p s.dropFailure with
  | ok x t =>
    rw [notFollowedBy_ok hps]
    exact (hs.afterLook (hp.ok hs.dropFailure hps)).refuse law _
  | fail severity t => rw [notFollowedBy_fail hps]; exact hs.afterLook (hp.fail hs.dropFailure hps)
  | fault g => rw [notFollowedBy_fault hps]; trivial

theorem label (name : String) (hp : p.Lawful holds) : (Parser.label name p).Lawful holds := by
  intro input s hs
  have hnoted : (s.dropFailure.note (.enter name)).Lawful holds input :=
    hs.dropFailure.congr rfl rfl rfl
  cases hps : p (s.dropFailure.note (.enter name)) with
  | ok x t =>
    have ht : (t.note .leave).Lawful holds input := (hp.ok hnoted hps).congr rfl rfl rfl
    rw [label_ok hps]
    exact ht.absorb law hs
  | fail severity t =>
    have ht : (t.note .leave).Lawful holds input := (hp.fail hnoted hps).congr rfl rfl rfl
    by_cases hbeyond : t.failedBeyond s.index = true
    · rw [label_beyond hps hbeyond]; exact ht.absorb law hs
    · rw [label_named hps hbeyond]
      exact ((ht.dropFailure.restore hs).expect law [name]).absorb law hs
  | fault g => rw [label_fault hps]; trivial

/-! ## Tokens -/

/-- The grammar starts among tokens with nothing on record; what it leaves there is moved. -/
theorem staged {grammar : Parser .tokens α} {lexer : Parser .text (List Token)}
    (hgrammar : grammar.Lawful holds) (hlexer : lexer.Lawful holds)
    (htokens : ∀ s tokens t, s.index ≤ s.input.length → lexer s = .ok tokens t →
      ∀ token ∈ tokens, token.IsPieceOf s.input) :
    (Parser.staged grammar lexer).Lawful holds := by
  intro input s hs
  cases hls : lexer s.dropFailure with
  | ok tokens t =>
    have ht := hlexer.ok hs.dropFailure hls
    have hpieces : ∀ token ∈ tokens, token.IsPieceOf t.input := by
      rw [ht.input_eq, ← hs.input_eq]
      exact htokens s.dropFailure tokens t (hs.input_eq ▸ hs.index_le) hls
    have hback : ∀ u, State.Lawful (a := .tokens) holds tokens u →
        (s.afterStages t tokens u).Lawful holds input := by
      intro u hu
      refine ⟨ht.input_eq, ht.index_le, law.furthest hs.failure fun f hf => ?_⟩
      obtain ⟨among, hamong, rfl⟩ := Option.map_eq_some_iff.mp hf
      obtain ⟨rfl, hindex, -⟩ := ht
      exact law.toSource hpieces hindex (hu.failure among hamong)
    cases hgs : grammar { input := tokens, events := t.events } with
    | ok x u =>
      rw [staged_ok_ok hls hgs]
      exact hback u (hgrammar.ok (.start (a := .tokens) tokens _) hgs)
    | fail severity u =>
      rw [staged_ok_fail hls hgs]
      exact (hback u (hgrammar.fail (.start (a := .tokens) tokens _) hgs)).restore hs
    | fault g => rw [staged_ok_fault hls hgs]; trivial
  | fail severity t =>
    have ht := hlexer.fail hs.dropFailure hls
    rw [staged_fail hls]
    exact ⟨ht.input_eq, ht.index_le, hs.failure⟩
  | fault g => rw [staged_fault hls]; trivial

omit law in
theorem cut (stop : Nat) (kind : String → TokenKind) : (Parser.cut stop kind).Lawful holds := by
  intro input s hs
  cases hslice : s.slice? s.index stop with
  | some chars =>
    have hstop := (Backtracks.slice?_bounds hslice).2
    rw [cut_ok hslice]
    exact hs.moved rfl (hs.input_eq ▸ hstop) rfl
  | none => rw [cut_out hslice]; trivial

omit law in
theorem scanWord {words : Parser .text Unit} (hwords : words.Lawful holds)
    {input : List Alphabet.text.Item} {s t : State .text} {stop : Option Nat}
    (hs : s.Lawful holds input)
    (h : Parser.scanWord words s = .ok (stop, t)) : t.Lawful holds input := by
  cases h' : words s.dropFailure with
  | ok x u => rw [scanWord_ok h'] at h; cases h; exact hs.afterLook (hwords.ok hs.dropFailure h')
  | fail severity u =>
    rw [scanWord_fail h'] at h
    cases h
    exact hs.afterLook (hwords.fail hs.dropFailure h')
  | fault g => rw [scanWord_fault h'] at h; cases h

theorem terminal (lexicon : Lexicon) {words : Parser .text Unit} (hwords : words.Lawful holds) :
    (Parser.terminal lexicon words).Lawful holds := by
  intro input s hs
  by_cases hout : s.input.length < s.index ∧ lexicon.operators ≠ []
  · rw [terminal_out hout.1 hout.2]; trivial
  cases h : Parser.scanWord words s with
  | error g => rw [terminal_fault hout h]; trivial
  | ok scanned =>
    obtain ⟨stop, t⟩ := scanned
    have ht := hwords.scanWord hs h
    rcases terminal_scanned hout h with ⟨-, -, h'⟩ | ⟨n, -, -, h'⟩ | ⟨operator, -, -, h'⟩
    · rw [h']; exact ht.expect law _
    · rw [h']; exact cut n _ input t ht
    · rw [h']; exact cut _ _ input t ht

end Lawful

end Parser

/-! ## Grammars -/

variable {S : Scope} {α : Type}

/-- The parser of a grammar keeps the law if those that references stand for do. -/
theorem Grammar.run_lawful (law : Failure.Law holds) {bindings : Bindings S} {depth : Nat}
    (hresolve : ∀ x, (ref x).Throughout bindings (fun part => part.grammar.LexesProperly) →
      (bindings.resolver depth x).Lawful holds)
    (g : Grammar S a α) (hg : g.Throughout bindings fun part => part.grammar.LexesProperly) :
    (g.run (bindings.resolver depth)).Lawful holds := by
  induction g with
  | item extract names => exact .item law extract names
  | atEnd => exact .atEnd law
  | pure value => exact fun _ _ hs => hs
  | refuse message => exact .refuse law message
  | silent severity => exact fun _ _ hs => hs
  | scan matcher name => exact .scan law matcher name
  | map f p ih => exact .map f (ih (hg.operand (.head _)))
  | seqWith f p q ihp ihq =>
    exact .seqWith f (ihp (hg.operand (.head _))) (ihq (hg.operand (.tail _ (.head _))))
  | orElse p q ihp ihq =>
    exact .orElse (ihp (hg.operand (.head _))) (ihq (hg.operand (.tail _ (.head _))))
  | atomic p ih => exact .atomic (ih (hg.operand (.head _)))
  | peek p ih => exact .peek (ih (hg.operand (.head _)))
  | notFollowedBy p name ih => exact .notFollowedBy law name (ih (hg.operand (.head _)))
  | many p ih => exact .many (ih (hg.operand (.head _)))
  | label name p ih => exact .label law name (ih (hg.operand (.head _)))
  | traced name render p ih => exact .traced name render (ih (hg.operand (.head _)))
  | spanned f p ih => exact .spanned f (ih (hg.operand (.head _)))
  | ref x => exact hresolve x hg
  | staged grammar found ihgrammar ihfound =>
    obtain ⟨g, tokenizer, delimiter, -, rfl, htokenizer⟩ := hg.self
    refine .staged law (ihgrammar (hg.operand (.head _)))
      (ihfound (hg.operand (.tail _ (.head _)))) fun s tokens t hs h => ?_
    exact (Rules.tiles_of_lexer_ok ⟨bindings, depth⟩ htokenizer delimiter hs h).pieces
  | terminal lexicon words ih => exact .terminal law lexicon (ih (hg.operand (.head _)))

/-- All that a parser put together by the library leaves on record keeps any law of failures. -/
theorem Rules.parser_lawful (law : Failure.Law holds) {rules : Rules S} {g : Grammar S a α}
    (hg : g.Throughout rules.bindings fun part => part.grammar.LexesProperly) :
    (rules.parser g).Lawful holds :=
  g.run_lawful law
    (Bindings.resolver_induction (Q := Parser.Lawful holds) (fun _ _ _ _ => trivial)
      (fun _ _ _ _ => trivial) (fun _ h _ _ g hg => g.run_lawful law h hg) rules.depth) hg

/-! ## Where failures lie -/

/-- No failure lies past the end of its input. -/
theorem Failure.law_position_le : Failure.Law fun _ input f => f.position ≤ input.length where
  recorded _ _ _ hs := hs
  merge _ hfirst _ := hfirst
  toSource htokens hstopped _ := by
    refine Failure.position_toSource_le _ _ (fun token htoken => ?_) hstopped
    have hpiece := htokens token htoken
    exact Nat.le_of_lt (Nat.lt_of_lt_of_le hpiece.start_lt_stop hpiece.stop_le)

end Descent
