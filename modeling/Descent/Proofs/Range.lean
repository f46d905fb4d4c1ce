import Descent.Proofs.Tokens
import Descent.Proofs.Vocabulary

/-!
No stretch of text is asked for that is not there.

A parser that starts within its input stays within it: whatever it consumes or cuts out ends between
its place and the end (`Rules.parser_inRange`). Scanners have to ask nothing beyond the text for
that; everything else follows from where operands end.
-/

namespace Descent

namespace Parser

variable {a : Alphabet} {α β γ : Type}

/-- A parser that never leaves an input within which it starts. -/
def InRange (p : Parser a α) : Prop :=
  ∀ s, s.index ≤ s.input.length → p s ≠ .fault .outOfRange

namespace InRange

variable {p : Parser a α}

/-! ## Single units -/

theorem item (extract : a.Item → Option α) (names : List String) :
    (Parser.item extract names).InRange := by
  intro s _
  unfold Parser.item
  split <;> exact nofun

theorem atEnd : (Parser.atEnd (a := a)).InRange := by
  intro s _
  unfold Parser.atEnd
  split <;> exact nofun

theorem scan {matcher : List Char → Nat → Option (Nat × α)} (name : String)
    (hmatcher : ∀ text start stop value, start ≤ text.length →
      matcher text start = some (stop, value) → start ≤ stop ∧ stop ≤ text.length) :
    (Parser.scan matcher name).InRange := by
  intro s hs
  unfold Parser.scan
  split
  · rename_i stop value hmatch
    rw [if_pos (hmatcher _ _ _ _ hs hmatch)]
    exact nofun
  · exact nofun

/-! ## Sequence and choice -/

theorem map (f : α → β) (hp : p.InRange) : (Parser.map f p).InRange := by
  intro s hs
  have hps := hp s hs
  rw [map_apply]
  cases h : p s with
  | ok x t => exact nofun
  | fail severity t => exact nofun
  | fault g => rintro ⟨⟩; exact hps h

theorem seqWith (f : α → β → γ) {q : Parser a β} (hb : p.Backtracks) (hp : p.InRange)
    (hq : q.InRange) : (Parser.seqWith f p q).InRange := by
  intro s hs
  cases h : p s with
  | ok x t =>
    cases h' : q t with
    | ok y u => rw [seqWith_ok_ok h h']; exact nofun
    | fail severity u => rw [seqWith_ok_fail h h']; exact nofun
    | fault g =>
      rw [seqWith_ok_fault h h']
      rintro ⟨⟩
      exact hq t ((hb.ok h).within hs) h'
  | fail severity t => rw [seqWith_fail h]; exact nofun
  | fault g =>
    rw [seqWith_fault h]
    rintro ⟨⟩
    exact hp s hs h

theorem orElse {q : Parser a α} (hb : p.Backtracks) (hp : p.InRange) (hq : q.InRange) :
    (Parser.orElse p q).InRange := by
  intro s hs
  cases h : p s with
  | ok x t => rw [orElse_ok h]; exact nofun
  | fail severity t =>
    cases severity with
    | recoverable =>
      rw [orElse_recoverable h]
      refine hq _ ?_
      rw [State.index_restore, State.input_restore, (hb.fail h).1]
      exact hs
    | committed => rw [orElse_committed h]; exact nofun
  | fault g =>
    rw [orElse_fault h]
    rintro ⟨⟩
    exact hp s hs h

/-! ## Lookahead and commitment -/

theorem atomic (hp : p.InRange) : (Parser.atomic p).InRange := by
  intro s hs
  cases h : p { s with mark := s.index } with
  | ok x t => rw [atomic_ok h]; exact nofun
  | fail severity t =>
    cases severity with
    | recoverable =>
      by_cases hmark : s.index < t.mark
      · rw [atomic_consumed h hmark]; exact nofun
      · rw [atomic_untouched h hmark]; exact nofun
    | committed => rw [atomic_committed h]; exact nofun
  | fault g =>
    rw [atomic_fault h]
    rintro ⟨⟩
    exact hp { s with mark := s.index } hs h

theorem peek (hp : p.InRange) : (Parser.peek p).InRange := by
  intro s hs
  have hps := hp s hs
  rw [peek_apply]
  cases h : p s with
  | ok x t => exact nofun
  | fail severity t => exact nofun
  | fault g => rintro ⟨⟩; exact hps h

theorem notFollowedBy (hp : p.InRange) (name : String) :
    (Parser.notFollowedBy p name).InRange := by
  intro s hs
  cases h : p s.dropFailure with
  | ok x t => rw [notFollowedBy_ok h]; exact nofun
  | fail severity t => rw [notFollowedBy_fail h]; exact nofun
  | fault g =>
    rw [notFollowedBy_fault h]
    rintro ⟨⟩
    exact hp s.dropFailure hs h

/-! ## Repetition -/

theorem iterate (hb : p.Backtracks) (hp : p.InRange) (n : Nat) : (Parser.iterate p n).InRange := by
  induction n with
  | zero => exact fun _ _ => nofun
  | succ n ih =>
    intro s hs
    cases h : p s with
    | ok x t =>
      by_cases hindex : t.index = s.index
      · rw [iterate_stuck h hindex]; exact nofun
      · rw [iterate_moved h hindex]
        exact map (x :: ·) ih t ((hb.ok h).within hs)
    | fail severity t =>
      cases severity with
      | recoverable => rw [iterate_recoverable h]; exact nofun
      | committed => rw [iterate_committed h]; exact nofun
    | fault g =>
      rw [iterate_fault h]
      rintro ⟨⟩
      exact hp s hs h

theorem many (hb : p.Backtracks) (hp : p.InRange) : (Parser.many p).InRange := by
  intro s hs
  cases h : Parser.iterate p (s.input.length - s.index + 1) s with
  | ok xs t => rw [many_ok h]; exact nofun
  | fail severity t => rw [many_fail h]; exact nofun
  | fault g =>
    rw [many_fault h]
    rintro ⟨⟩
    exact iterate hb hp _ s hs h

/-! ## Names -/

theorem label (name : String) (hp : p.InRange) : (Parser.label name p).InRange := by
  intro s hs
  cases h : p (s.dropFailure.note (.enter name)) with
  | ok x t => rw [label_ok h]; exact nofun
  | fail severity t =>
    by_cases hbeyond : t.failedBeyond s.index = true
    · rw [label_beyond h hbeyond]; exact nofun
    · rw [label_named h hbeyond]; exact nofun
  | fault g =>
    rw [label_fault h]
    rintro ⟨⟩
    exact hp (s.dropFailure.note (.enter name)) hs h

theorem traced (name : String) (render : α → String) (hp : p.InRange) :
    (Parser.traced name render p).InRange := by
  intro s hs
  cases h : p (s.note (.enter name)) with
  | ok x t => rw [traced_ok h]; exact nofun
  | fail severity t => rw [traced_fail h]; exact nofun
  | fault g =>
    rw [traced_fault h]
    rintro ⟨⟩
    exact hp (s.note (.enter name)) hs h

/-! ## Text -/

/-- What a parser took is there, since it went forwards and not past the end. -/
theorem exists_slice {s t : State a} (h : s.Follows t) (hs : s.index ≤ s.input.length) :
    ∃ units, t.slice? s.index t.index = some units :=
  ⟨_, if_pos ⟨h.index_le, h.within hs⟩⟩

theorem spanned (f : α → Nat → Nat → List Char → β) {p : Parser .text α} (hb : p.Backtracks)
    (hp : p.InRange) : (Parser.spanned f p).InRange := by
  intro s hs
  cases h : p s with
  | ok x t =>
    obtain ⟨text, hslice⟩ := exists_slice (hb.ok h) hs
    rw [spanned_ok h hslice]
    exact nofun
  | fail severity t => rw [spanned_fail h]; exact nofun
  | fault g =>
    rw [spanned_fault h]
    rintro ⟨⟩
    exact hp s hs h

theorem staged {grammar : Parser .tokens α} {lexer : Parser .text (List Token)}
    (hgrammar : grammar.InRange) (hlexer : lexer.InRange) :
    (Parser.staged grammar lexer).InRange := by
  intro s hs
  cases h : lexer s.dropFailure with
  | ok tokens t =>
    cases h' : grammar { input := tokens, events := t.events } with
    | ok x u => rw [staged_ok_ok h h']; exact nofun
    | fail severity u => rw [staged_ok_fail h h']; exact nofun
    | fault g =>
      rw [staged_ok_fault h h']
      rintro ⟨⟩
      exact hgrammar _ (Nat.zero_le _) h'
  | fail severity t => rw [staged_fail h]; exact nofun
  | fault g =>
    rw [staged_fault h]
    rintro ⟨⟩
    exact hlexer s.dropFailure hs h

theorem cut {stop : Nat} (kind : String → TokenKind) {s : State .text} (hle : s.index ≤ stop)
    (hstop : stop ≤ s.input.length) : Parser.cut stop kind s ≠ .fault .outOfRange := by
  rw [cut_ok (if_pos ⟨hle, hstop⟩)]
  exact nofun

/-- A word that was found ends after the place and not past the end. -/
theorem scanWord_bounds {words : Parser .text Unit} (hb : words.Backtracks) {s t : State .text}
    {stop : Nat} (hs : s.index ≤ s.input.length)
    (h : Parser.scanWord words s = .ok (some stop, t)) :
    s.index < stop ∧ stop ≤ s.input.length := by
  cases h' : words s.dropFailure with
  | ok x u =>
    have hu := hb.ok h'
    rw [scanWord_ok h'] at h
    split at h
    · rename_i hlt
      cases h
      exact ⟨hlt, hu.input ▸ hu.within hs⟩
    · cases h
  | fail severity u => rw [scanWord_fail h'] at h; cases h
  | fault g => rw [scanWord_fault h'] at h; cases h

theorem terminal (lexicon : Lexicon) {words : Parser .text Unit} (hb : words.Backtracks)
    (hwords : words.InRange) : (Parser.terminal lexicon words).InRange := by
  intro s hs
  have hstart : ¬ (s.input.length < s.index ∧ lexicon.operators ≠ []) :=
    fun h => Nat.not_lt.mpr hs h.1
  cases h : Parser.scanWord words s with
  | error g =>
    rw [terminal_fault hstart h]
    rintro ⟨⟩
    cases h' : words s.dropFailure with
    | ok x u => rw [scanWord_ok h'] at h; cases h
    | fail severity u => rw [scanWord_fail h'] at h; cases h
    | fault g => rw [scanWord_fault h'] at h; cases h; exact hwords s.dropFailure hs h'
  | ok scanned =>
    obtain ⟨stop, t⟩ := scanned
    obtain ⟨hinput, hindex⟩ := Backtracks.scanWord hb h
    rcases terminal_scanned hstart h with ⟨-, -, h'⟩ | ⟨n, rfl, -, h'⟩ | ⟨operator, hop, -, h'⟩
    · rw [h']; exact nofun
    · have hn := scanWord_bounds hb hs h
      rw [h']
      exact cut _ (by omega) (by rw [hinput]; exact hn.2)
    · have hop := Lexicon.longestOperator?_length_le hop
      rw [List.length_drop] at hop
      rw [h']
      rw [← hinput, ← hindex] at hs
      exact cut _ (by omega) (by omega)

end InRange

end Parser

/-! ## Grammars -/

variable {S : Scope} {a : Alphabet} {α : Type}

/-- The parser of a grammar that is put together by the library stays in range if those that
references stand for do. -/
theorem Grammar.run_inRange {bindings : Bindings S} {resolve : Resolver S}
    (hb : ∀ x, (resolve x).Backtracks)
    (hresolve : ∀ x, (ref x).Throughout bindings (fun part => part.grammar.Proper) →
      (resolve x).InRange)
    (g : Grammar S a α) (hg : g.Throughout bindings fun part => part.grammar.Proper) :
    (g.run resolve).InRange := by
  induction g with
  | item extract names => exact .item extract names
  | atEnd => exact .atEnd
  | pure value => exact fun _ _ => nofun
  | refuse message => exact fun _ _ => nofun
  | silent severity => exact fun _ _ => nofun
  | scan matcher name =>
    exact .scan name fun _ _ _ _ hstart hmatch => IsScanner.bounds hg.self hstart hmatch
  | map f p ih => exact .map f (ih (hg.operand (.head _)))
  | seqWith f p q ihp ihq =>
    exact .seqWith f (p.run_backtracks hb) (ihp (hg.operand (.head _)))
      (ihq (hg.operand (.tail _ (.head _))))
  | orElse p q ihp ihq =>
    exact .orElse (p.run_backtracks hb) (ihp (hg.operand (.head _)))
      (ihq (hg.operand (.tail _ (.head _))))
  | atomic p ih => exact .atomic (ih (hg.operand (.head _)))
  | peek p ih => exact .peek (ih (hg.operand (.head _)))
  | notFollowedBy p name ih => exact .notFollowedBy (ih (hg.operand (.head _))) name
  | many p ih => exact .many (p.run_backtracks hb) (ih (hg.operand (.head _)))
  | label name p ih => exact .label name (ih (hg.operand (.head _)))
  | traced name render p ih => exact .traced name render (ih (hg.operand (.head _)))
  | spanned f p ih => exact .spanned f (p.run_backtracks hb) (ih (hg.operand (.head _)))
  | ref x => exact hresolve x hg
  | staged grammar lexer ihg ihl =>
    exact .staged (ihg (hg.operand (.head _))) (ihl (hg.operand (.tail _ (.head _))))
  | terminal lexicon words ih =>
    exact .terminal lexicon (words.run_backtracks hb) (ih (hg.operand (.head _)))

/-- A parser put together by the library that starts within its input never asks for a stretch of
it that is not there. -/
theorem Rules.parser_inRange {rules : Rules S} {g : Grammar S a α}
    (hg : g.Throughout rules.bindings fun part => part.grammar.Proper) :
    (rules.parser g).InRange :=
  g.run_inRange (rules.bindings.resolver_backtracks rules.depth)
    (Bindings.resolver_induction (Q := Parser.InRange) (fun _ _ _ => nofun) (fun _ _ _ => nofun)
      (fun depth h _ _ g hg => g.run_inRange (rules.bindings.resolver_backtracks depth) h hg)
      rules.depth) hg

end Descent
