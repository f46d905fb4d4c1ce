import Descent.Proofs.Backtracking
import Descent.Proofs.History

/-!
Names are only for people.

`Grammar.unnamed` leaves out every `label` and every `traced` of a grammar, also behind references.
Run a grammar and what is left of it side by side, from states that differ in nothing but the failure
on record and the events: they end in such states (`Parser.Alike`), with the same value, the same
kind of failure or the same fault (`Rules.parser_unnamed`). Only `label` looks at a failure, and all
it decides by it is which failure to leave; that it sets the index back as well makes no difference,
since its operand has done so (`Parser.Backtracks`).
-/

namespace Descent

variable {S : Scope} {a : Alphabet} {α β γ : Type}

/-! ## Grammars without names -/

/-- The grammar with each `label` and each `traced` replaced by what stands in it. -/
def Grammar.unnamed : {a : Alphabet} → {α : Type} → Grammar S a α → Grammar S a α
  | _, _, .item extract names => .item extract names
  | _, _, .atEnd => .atEnd
  | _, _, .pure value => .pure value
  | _, _, .refuse message => .refuse message
  | _, _, .silent severity => .silent severity
  | _, _, .scan matcher name => .scan matcher name
  | _, _, .map f p => .map f p.unnamed
  | _, _, .seqWith f p q => .seqWith f p.unnamed q.unnamed
  | _, _, .orElse p q => .orElse p.unnamed q.unnamed
  | _, _, .atomic p => .atomic p.unnamed
  | _, _, .peek p => .peek p.unnamed
  | _, _, .notFollowedBy p name => .notFollowedBy p.unnamed name
  | _, _, .many p => .many p.unnamed
  | _, _, .label _ p => p.unnamed
  | _, _, .traced _ _ p => p.unnamed
  | _, _, .spanned f p => .spanned f p.unnamed
  | _, _, .ref x => .ref x
  | _, _, .staged grammar lexer => .staged grammar.unnamed lexer.unnamed
  | _, _, .terminal lexicon words => .terminal lexicon words.unnamed

/-- The rules with all names left out. References may lead as deep as before. -/
def Rules.unnamed (rules : Rules S) : Rules S :=
  { rules with bindings := rules.bindings.rewritten Grammar.unnamed }

/-- Is this a name and what it stands for? -/
def Part.IsNamed : Part S → Prop
  | ⟨.label _ _⟩ => True
  | ⟨.traced _ _ _⟩ => True
  | _ => False

/-- Neither the grammar nor anything it uses has a name. -/
def Grammar.Nameless (bindings : Bindings S) (g : Grammar S a α) : Prop :=
  g.Throughout bindings fun part => ¬ part.IsNamed

/-- No name is left, references not followed. -/
theorem Grammar.unnamed_nameless (g : Grammar S a α) : g.unnamed.Nameless [] := by
  induction g with
  | map f p ih => exact .unary id rfl ih
  | seqWith f p q ihp ihq => exact .binary id rfl ihp ihq
  | orElse p q ihp ihq => exact .binary id rfl ihp ihq
  | atomic p ih => exact .unary id rfl ih
  | peek p ih => exact .unary id rfl ih
  | notFollowedBy p name ih => exact .unary id rfl ih
  | many p ih => exact .unary id rfl ih
  | label name p ih => exact ih
  | traced name render p ih => exact ih
  | spanned f p ih => exact .unary id rfl ih
  | staged grammar lexer ihgrammar ihlexer => exact .binary id rfl ihgrammar ihlexer
  | terminal lexicon words ih => exact .unary id rfl ih
  | _ => exact .leaf id rfl

theorem Rules.unnamed_nameless (rules : Rules S) (g : Grammar S a α) :
    g.unnamed.Nameless rules.unnamed.bindings := by
  refine Grammar.throughout_of_bindings (fun binding hbinding => ?_) g.unnamed_nameless
  obtain ⟨original, -, rfl⟩ := List.mem_map.mp hbinding
  exact original.grammar.unnamed_nameless

/-! ## What names leave alone -/

/-- Two states at the same place of the same input, with as much of it consumed. What failed and what
those who watch have seen may differ. -/
structure State.Alike (s s' : State a) : Prop where
  input : s.input = s'.input
  index : s.index = s'.index
  mark : s.mark = s'.mark

/-- Two runs end alike: with the same value, the same kind of failure or the same fault, in states
that are alike. -/
inductive Outcome.Alike : Outcome a α → Outcome a α → Prop where
  | ok (value : α) {t t' : State a} (state : t.Alike t') : Alike (ok value t) (ok value t')
  | fail (severity : Severity) {t t' : State a} (state : t.Alike t') :
      Alike (fail severity t) (fail severity t')
  | fault (g : Fault) : Alike (fault g) (fault g)

namespace State.Alike

variable {s s' t t' : State a}

theorem refl (s : State a) : s.Alike s :=
  ⟨rfl, rfl, rfl⟩

theorem dropFailure (hs : s.Alike s') : s.dropFailure.Alike s'.dropFailure :=
  ⟨hs.input, hs.index, hs.mark⟩

theorem restore (ht : t.Alike t') (hs : s.Alike s') :
    (t.restore s.index).Alike (t'.restore s'.index) :=
  ⟨ht.input, hs.index, ht.mark⟩

theorem raiseMark (ht : t.Alike t') (hs : s.Alike s') :
    (t.raiseMark s.mark).Alike (t'.raiseMark s'.mark) :=
  ⟨ht.input, ht.index, congrArg₂ max ht.mark hs.mark⟩

theorem afterLook (ht : t.Alike t') (hs : s.Alike s') :
    (s.afterLook t).Alike (s'.afterLook t') :=
  ⟨ht.input, hs.index, hs.mark⟩

theorem bare_eq (hs : s.Alike s') : s.bare = s'.bare := by
  simp only [State.bare, hs.input, hs.index]

theorem slice?_eq (hs : s.Alike s') (start stop : Nat) :
    s.slice? start stop = s'.slice? start stop := by
  simp only [State.slice?, hs.input]

/-- From states that are alike a run leads to states that are alike, if each adds to its past. -/
theorem withPast (hs : s.Alike s') (t : State a) :
    (t.withPast s.past).Alike (t.withPast s'.past) :=
  ⟨rfl, rfl, congrArg (max · t.mark) hs.mark⟩

end State.Alike

namespace Outcome.Alike

variable {outcome outcome' : Outcome a α}

theorem map (h : outcome.Alike outcome') (f : α → β) : (outcome.map f).Alike (outcome'.map f) := by
  cases h with
  | ok value state => exact .ok (f value) state
  | fail severity state => exact .fail severity state
  | fault g => exact .fault g

theorem mapState {f f' : State a → State a} (h : outcome.Alike outcome')
    (hf : ∀ t t', t.Alike t' → (f t).Alike (f' t')) :
    (outcome.mapState f).Alike (outcome'.mapState f') := by
  cases h with
  | ok value state => exact .ok value (hf _ _ state)
  | fail severity state => exact .fail severity (hf _ _ state)
  | fault g => exact .fault g

end Outcome.Alike

namespace Parser

/-- Two parsers that end alike wherever they start alike. -/
def Alike (p p' : Parser a α) : Prop :=
  ∀ s s', s.Alike s' → (p s).Alike (p' s')

namespace Alike

section

variable {p p' : Parser a α} {s s' t : State a} {x : α} {severity : Severity} {g : Fault}

theorem ok (hp : p.Alike p') (hs : s.Alike s') (h : p s = .ok x t) :
    ∃ t', p' s' = .ok x t' ∧ t.Alike t' := by
  have hend := hp s s' hs
  rw [h] at hend
  generalize p' s' = outcome at hend
  cases hend with
  | ok _ state => exact ⟨_, rfl, state⟩

theorem fail (hp : p.Alike p') (hs : s.Alike s') (h : p s = .fail severity t) :
    ∃ t', p' s' = .fail severity t' ∧ t.Alike t' := by
  have hend := hp s s' hs
  rw [h] at hend
  generalize p' s' = outcome at hend
  cases hend with
  | fail _ state => exact ⟨_, rfl, state⟩

theorem fault (hp : p.Alike p') (hs : s.Alike s') (h : p s = .fault g) : p' s' = .fault g := by
  have hend := hp s s' hs
  rw [h] at hend
  generalize p' s' = outcome at hend
  cases hend with
  | fault _ => rfl

/-- A parser that has no use for its past is like itself. -/
theorem refl (hp : p.HistoryFree) : p.Alike p := by
  intro s s' hs
  rw [hp.bare s, hp.bare s', ← hs.bare_eq]
  cases p s.bare with
  | ok x t => exact .ok x (hs.withPast t)
  | fail severity t => exact .fail severity (hs.withPast t)
  | fault g => exact .fault g

end

/-! ## Sequence and choice -/

variable {p p' : Parser a α}

theorem map (f : α → β) (hp : p.Alike p') : (Parser.map f p).Alike (Parser.map f p') :=
  fun s s' hs => (hp s s' hs).map f

theorem seqWith (f : α → β → γ) {q q' : Parser a β} (hp : p.Alike p') (hq : q.Alike q') :
    (Parser.seqWith f p q).Alike (Parser.seqWith f p' q') := by
  intro s s' hs
  cases h : p s with
  | ok x t =>
    obtain ⟨t', h', ht⟩ := hp.ok hs h
    cases hqt : q t with
    | ok y u =>
      obtain ⟨u', hqt', hu⟩ := hq.ok ht hqt
      rw [seqWith_ok_ok h hqt, seqWith_ok_ok h' hqt']
      exact .ok _ hu
    | fail severity u =>
      obtain ⟨u', hqt', hu⟩ := hq.fail ht hqt
      rw [seqWith_ok_fail h hqt, seqWith_ok_fail h' hqt']
      exact .fail severity (hu.restore hs)
    | fault g =>
      rw [seqWith_ok_fault h hqt, seqWith_ok_fault h' (hq.fault ht hqt)]
      exact .fault g
  | fail severity t =>
    obtain ⟨t', h', ht⟩ := hp.fail hs h
    rw [seqWith_fail h, seqWith_fail h']
    exact .fail severity (ht.restore hs)
  | fault g =>
    rw [seqWith_fault h, seqWith_fault (hp.fault hs h)]
    exact .fault g

theorem orElse {q q' : Parser a α} (hp : p.Alike p') (hq : q.Alike q') :
    (Parser.orElse p q).Alike (Parser.orElse p' q') := by
  intro s s' hs
  cases h : p s with
  | ok x t =>
    obtain ⟨t', h', ht⟩ := hp.ok hs h
    rw [orElse_ok h, orElse_ok h']
    exact .ok x ht
  | fail severity t =>
    obtain ⟨t', h', ht⟩ := hp.fail hs h
    cases severity with
    | recoverable =>
      rw [orElse_recoverable h, orElse_recoverable h']
      exact hq _ _ (ht.restore hs)
    | committed =>
      rw [orElse_committed h, orElse_committed h']
      exact .fail .committed ht
  | fault g =>
    rw [orElse_fault h, orElse_fault (hp.fault hs h)]
    exact .fault g

/-! ## Lookahead and commitment -/

/-- Whether a failure commits depends on the mark, which is the same in both. -/
theorem atomic (hp : p.Alike p') : (Parser.atomic p).Alike (Parser.atomic p') := by
  intro s s' hs
  have hstart : ({ s with mark := s.index } : State a).Alike { s' with mark := s'.index } :=
    ⟨hs.input, hs.index, hs.index⟩
  cases h : p { s with mark := s.index } with
  | ok x t =>
    obtain ⟨t', h', ht⟩ := hp.ok hstart h
    rw [atomic_ok h, atomic_ok h']
    exact .ok x (ht.raiseMark hs)
  | fail severity t =>
    obtain ⟨t', h', ht⟩ := hp.fail hstart h
    cases severity with
    | recoverable =>
      by_cases hmark : s.index < t.mark
      · have hmark' : s'.index < t'.mark := hs.index ▸ ht.mark ▸ hmark
        rw [atomic_consumed h hmark, atomic_consumed h' hmark']
        exact .fail .committed ((ht.raiseMark hs).restore hs)
      · have hmark' : ¬ s'.index < t'.mark := hs.index ▸ ht.mark ▸ hmark
        rw [atomic_untouched h hmark, atomic_untouched h' hmark']
        exact .fail .recoverable (ht.raiseMark hs)
    | committed =>
      rw [atomic_committed h, atomic_committed h']
      exact .fail .committed (ht.raiseMark hs)
  | fault g =>
    rw [atomic_fault h, atomic_fault (hp.fault hstart h)]
    exact .fault g

theorem peek (hp : p.Alike p') : (Parser.peek p).Alike (Parser.peek p') := by
  intro s s' hs
  rw [peek_apply, peek_apply]
  exact (hp s s' hs).mapState fun t t' ht => ⟨ht.input, hs.index, hs.mark⟩

theorem notFollowedBy (name : String) (hp : p.Alike p') :
    (Parser.notFollowedBy p name).Alike (Parser.notFollowedBy p' name) := by
  intro s s' hs
  have hstart := hs.dropFailure
  cases h : p s.dropFailure with
  | ok x t =>
    obtain ⟨t', h', ht⟩ := hp.ok hstart h
    have hback := ht.afterLook hs
    rw [notFollowedBy_ok h, notFollowedBy_ok h']
    exact .fail .recoverable ⟨hback.input, hback.index, hback.mark⟩
  | fail severity t =>
    obtain ⟨t', h', ht⟩ := hp.fail hstart h
    rw [notFollowedBy_fail h, notFollowedBy_fail h']
    exact .ok () (ht.afterLook hs)
  | fault g =>
    rw [notFollowedBy_fault h, notFollowedBy_fault (hp.fault hstart h)]
    exact .fault g

/-! ## Repetition -/

theorem iterate (hp : p.Alike p') (n : Nat) : (Parser.iterate p n).Alike (Parser.iterate p' n) := by
  induction n with
  | zero => exact fun _ _ _ => .fault _
  | succ n ih =>
    intro s s' hs
    cases h : p s with
    | ok x t =>
      obtain ⟨t', h', ht⟩ := hp.ok hs h
      by_cases hindex : t.index = s.index
      · have hindex' : t'.index = s'.index := ht.index ▸ hs.index ▸ hindex
        rw [iterate_stuck h hindex, iterate_stuck h' hindex', hs.index]
        exact .fault _
      · have hindex' : t'.index ≠ s'.index := ht.index ▸ hs.index ▸ hindex
        rw [iterate_moved h hindex, iterate_moved h' hindex']
        exact (ih t t' ht).map (x :: ·)
    | fail severity t =>
      obtain ⟨t', h', ht⟩ := hp.fail hs h
      cases severity with
      | recoverable =>
        rw [iterate_recoverable h, iterate_recoverable h']
        exact .ok [] (ht.restore hs)
      | committed =>
        rw [iterate_committed h, iterate_committed h']
        exact .fail .committed ht
    | fault g =>
      rw [iterate_fault h, iterate_fault (hp.fault hs h)]
      exact .fault g

theorem many (hp : p.Alike p') : (Parser.many p).Alike (Parser.many p') := by
  intro s s' hs
  have hend := hp.iterate (s.input.length - s.index + 1) s s' hs
  rw [many_apply, many_apply, ← hs.input, ← hs.index]
  generalize Parser.iterate p (s.input.length - s.index + 1) s = outcome,
    Parser.iterate p' (s.input.length - s.index + 1) s' = outcome' at hend ⊢
  cases hend with
  | ok xs state => exact .ok xs state
  | fail severity state => exact .fail severity ⟨state.input, rfl, state.mark⟩
  | fault g => exact .fault g

/-! ## Texts -/

theorem spanned {p p' : Parser .text α} (f : α → Nat → Nat → List Char → β) (hp : p.Alike p') :
    (Parser.spanned f p).Alike (Parser.spanned f p') := by
  intro s s' hs
  cases h : p s with
  | ok x t =>
    obtain ⟨t', h', ht⟩ := hp.ok hs h
    have hsame : t.slice? s.index t.index = t'.slice? s'.index t'.index := by
      rw [ht.slice?_eq, hs.index, ht.index]
    cases hslice : t.slice? s.index t.index with
    | some text =>
      rw [spanned_ok h hslice, spanned_ok h' (hsame ▸ hslice), hs.index, ht.index]
      exact .ok _ ht
    | none =>
      rw [spanned_out h hslice, spanned_out h' (hsame ▸ hslice)]
      exact .fault _
  | fail severity t =>
    obtain ⟨t', h', ht⟩ := hp.fail hs h
    rw [spanned_fail h, spanned_fail h']
    exact .fail severity ht
  | fault g =>
    rw [spanned_fault h, spanned_fault (hp.fault hs h)]
    exact .fault g

/-- The grammars of tokens start from states that differ in their events only. -/
theorem staged {grammar grammar' : Parser .tokens α} {lexer lexer' : Parser .text (List Token)}
    (hgrammar : grammar.Alike grammar') (hlexer : lexer.Alike lexer') :
    (Parser.staged grammar lexer).Alike (Parser.staged grammar' lexer') := by
  intro s s' hs
  have hstart := hs.dropFailure
  cases h : lexer s.dropFailure with
  | ok tokens t =>
    obtain ⟨t', h', ht⟩ := hlexer.ok hstart h
    have hamong : ({ input := tokens, events := t.events } : State .tokens).Alike
        { input := tokens, events := t'.events } := ⟨rfl, rfl, rfl⟩
    have hback : ∀ u u', (s.afterStages t tokens u).Alike (s'.afterStages t' tokens u') :=
      fun _ _ => ⟨ht.input, ht.index, ht.mark⟩
    cases hg : grammar { input := tokens, events := t.events } with
    | ok x u =>
      obtain ⟨u', hg', -⟩ := hgrammar.ok hamong hg
      rw [staged_ok_ok h hg, staged_ok_ok h' hg']
      exact .ok x (hback u u')
    | fail severity u =>
      obtain ⟨u', hg', -⟩ := hgrammar.fail hamong hg
      rw [staged_ok_fail h hg, staged_ok_fail h' hg']
      exact .fail severity ((hback u u').restore hs)
    | fault g =>
      rw [staged_ok_fault h hg, staged_ok_fault h' (hgrammar.fault hamong hg)]
      exact .fault g
  | fail severity t =>
    obtain ⟨t', h', ht⟩ := hlexer.fail hstart h
    rw [staged_fail h, staged_fail h']
    exact .fail severity ⟨ht.input, ht.index, ht.mark⟩
  | fault g =>
    rw [staged_fault h, staged_fault (hlexer.fault hstart h)]
    exact .fault g

/-- A look for a word finds the same in both, or is at fault in both. -/
theorem scanWord {words words' : Parser .text Unit} (hwords : words.Alike words')
    {s s' : State .text} (hs : s.Alike s') :
    (∃ stop t t', Parser.scanWord words s = .ok (stop, t) ∧
      Parser.scanWord words' s' = .ok (stop, t') ∧ t.Alike t') ∨
    ∃ g, Parser.scanWord words s = .error g ∧ Parser.scanWord words' s' = .error g := by
  have hstart := hs.dropFailure
  cases h : words s.dropFailure with
  | ok x t =>
    obtain ⟨t', h', ht⟩ := hwords.ok hstart h
    rw [scanWord_ok h, scanWord_ok h', ← hs.index, ← ht.index]
    exact .inl ⟨_, _, _, rfl, rfl, ht.afterLook hs⟩
  | fail severity t =>
    obtain ⟨t', h', ht⟩ := hwords.fail hstart h
    rw [scanWord_fail h, scanWord_fail h']
    exact .inl ⟨_, _, _, rfl, rfl, ht.afterLook hs⟩
  | fault g =>
    rw [scanWord_fault h, scanWord_fault (hwords.fault hstart h)]
    exact .inr ⟨g, rfl, rfl⟩

theorem terminal (lexicon : Lexicon) {words words' : Parser .text Unit}
    (hwords : words.Alike words') :
    (Parser.terminal lexicon words).Alike (Parser.terminal lexicon words') := by
  intro s s' hs
  have hcut : ∀ stop kind, (Parser.cut stop kind).Alike (Parser.cut stop kind) :=
    fun stop kind => .refl (.cut stop kind)
  unfold Parser.terminal
  rw [← hs.input, ← hs.index]
  split
  · exact .fault _
  · rcases hwords.scanWord hs with ⟨stop, t, t', h, h', ht⟩ | ⟨g, h, h'⟩
    · -- the same operator and the same word compete
      rw [h, h']
      simp only [← ht.input, ← ht.index]
      split
      · split
        · exact hcut _ _ t t' ht
        · exact hcut _ _ t t' ht
      · exact hcut _ _ t t' ht
      · exact hcut _ _ t t' ht
      · exact .fail .recoverable ⟨ht.input, ht.index, ht.mark⟩
    · rw [h, h']
      exact .fault g

/-! ## Names -/

/-- If the operand fails, a name decides which failure is left. It sets the index back to where the
operand has left it. -/
theorem label (name : String) (hb : p.Backtracks) (hp : p.Alike p') :
    (Parser.label name p).Alike p' := by
  intro s s' hs
  have hstart : (s.dropFailure.note (.enter name)).Alike s' := ⟨hs.input, hs.index, hs.mark⟩
  cases h : p (s.dropFailure.note (.enter name)) with
  | ok x t =>
    obtain ⟨t', h', ht⟩ := hp.ok hstart h
    rw [label_ok h, h']
    exact .ok x ⟨ht.input, ht.index, ht.mark⟩
  | fail severity t =>
    obtain ⟨t', h', ht⟩ := hp.fail hstart h
    by_cases hbeyond : t.failedBeyond s.index = true
    · rw [label_beyond h hbeyond, h']
      exact .fail severity ⟨ht.input, ht.index, ht.mark⟩
    · have hplace : s.index = t.index := (hb.fail h).2.symm
      rw [label_named h hbeyond, h']
      exact .fail severity ⟨ht.input, hplace.trans ht.index, ht.mark⟩
  | fault g =>
    rw [label_fault h, hp.fault hstart h]
    exact .fault g

theorem traced (name : String) (render : α → String) (hp : p.Alike p') :
    (Parser.traced name render p).Alike p' := by
  intro s s' hs
  have hstart : (s.note (.enter name)).Alike s' := ⟨hs.input, hs.index, hs.mark⟩
  cases h : p (s.note (.enter name)) with
  | ok x t =>
    obtain ⟨t', h', ht⟩ := hp.ok hstart h
    rw [traced_ok h, h']
    exact .ok x ⟨ht.input, ht.index, ht.mark⟩
  | fail severity t =>
    obtain ⟨t', h', ht⟩ := hp.fail hstart h
    rw [traced_fail h, h']
    exact .fail severity ⟨ht.input, ht.index, ht.mark⟩
  | fault g =>
    rw [traced_fault h, hp.fault hstart h]
    exact .fault g

end Alike

end Parser

/-! ## Grammars -/

/-- The parser of a grammar is like that of the grammar without names if that is so of what the
references in it do. -/
theorem Grammar.run_unnamed_alike {resolve resolve' : Resolver S}
    (hb : ∀ x, (resolve x).Backtracks) (hresolve : ∀ x, (resolve x).Alike (resolve' x))
    (g : Grammar S a α) : (g.run resolve).Alike (g.unnamed.run resolve') := by
  induction g with
  | item extract names => exact .refl (.item extract names)
  | atEnd => exact .refl .atEnd
  | pure value => exact .refl fun _ _ => rfl
  | refuse message => exact .refl (.refuse message)
  | silent severity => exact .refl fun _ _ => rfl
  | scan matcher name => exact .refl (.scan matcher name)
  | map f p ih => exact .map f ih
  | seqWith f p q ihp ihq => exact .seqWith f ihp ihq
  | orElse p q ihp ihq => exact .orElse ihp ihq
  | atomic p ih => exact .atomic ih
  | peek p ih => exact .peek ih
  | notFollowedBy p name ih => exact .notFollowedBy name ih
  | many p ih => exact .many ih
  | label name p ih => exact .label name (p.run_backtracks hb) ih
  | traced name render p ih => exact .traced name render ih
  | spanned f p ih => exact .spanned f ih
  | ref x => exact hresolve x
  | staged grammar lexer ihgrammar ihlexer => exact .staged ihgrammar ihlexer
  | terminal lexicon words ih => exact .terminal lexicon ih

theorem Bindings.resolver_unnamed_alike (bindings : Bindings S) (depth : Nat) (x : S.Ref) :
    (bindings.resolver depth x).Alike ((bindings.rewritten Grammar.unnamed).resolver depth x) :=
  rewritten_induction Grammar.unnamed (R := Parser.Alike) (fun _ _ _ _ _ => .fault _)
    (fun depth h _ _ g _ => g.run_unnamed_alike (bindings.resolver_backtracks depth)
      fun x => h x (Grammar.throughout_true _))
    depth x (Grammar.throughout_true _)

/-- **Names are only for people.** Without the names in it, also behind references, a grammar ends as
it does with them: with the same value, the same kind of failure or the same fault, at the same index
and with the same mark. Only the failure on record and the events may differ. -/
theorem Rules.parser_unnamed (rules : Rules S) (g : Grammar S a α) :
    g.unnamed.Nameless rules.unnamed.bindings ∧
    ∀ s, (rules.parser g s).Alike (rules.unnamed.parser g.unnamed s) := by
  refine ⟨rules.unnamed_nameless g, fun s => ?_⟩
  exact g.run_unnamed_alike (rules.bindings.resolver_backtracks rules.depth)
    (rules.bindings.resolver_unnamed_alike rules.depth) s s (.refl s)

end Descent
