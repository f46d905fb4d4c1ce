import Descent.Proofs.Application
import Descent.Proofs.History
import Descent.Proofs.Backtracking

/-!
What the mark of consumption says.

An application consumes past an index if it ends beyond it after having moved, or if something does
that is applied inside it and not only looked at (`Application.ConsumesPast`). The mark says just
that: it is past an index at the end of a run if it was so before or if the run has consumed past the
index, whatever has been set back in the meantime (`Application.marksPast`). The parsers that take in
one go are the leaves of this, and all that only look: they mark where they end, and nothing if they
fail (`Outcome.TakenAtOnce`).
-/

namespace Descent

variable {a : Alphabet} {α β γ : Type}

/-! ## Taken at once -/

/-- An outcome of a run from a state in which all was taken in one go, or nothing. -/
inductive Outcome.TakenAtOnce (s : State a) : Outcome a α → Prop where
  | stayed {x : α} {t : State a} (index : t.index = s.index) (mark : t.mark = s.mark) :
      TakenAtOnce s (.ok x t)
  | moved {x : α} {t : State a} (index_le : s.index ≤ t.index) (mark : t.mark = max s.mark t.index) :
      TakenAtOnce s (.ok x t)
  | fail {severity : Severity} {t : State a} (mark : t.mark = s.mark) :
      TakenAtOnce s (.fail severity t)
  | fault (f : Fault) : TakenAtOnce s (.fault f)

/-- Only the place and the mark of the first state count. -/
theorem Outcome.TakenAtOnce.congr {s t : State a} {outcome : Outcome a α}
    (h : outcome.TakenAtOnce s) (hindex : s.index = t.index) (hmark : s.mark = t.mark) :
    outcome.TakenAtOnce t := by
  cases h with
  | stayed index mark => exact .stayed (index.trans hindex) (mark.trans hmark)
  | moved index_le mark => exact .moved (hindex ▸ index_le) (hmark ▸ mark)
  | fail mark => exact .fail (mark.trans hmark)
  | fault f => exact .fault f

namespace Parser

/-- A parser that takes all it takes in one go, and nothing if it fails. -/
def TakesAtOnce (p : Parser a α) : Prop :=
  ∀ s, (p s).TakenAtOnce s

namespace TakesAtOnce

theorem item (extract : a.Item → Option α) (names : List String) :
    (Parser.item extract names).TakesAtOnce := by
  intro s
  unfold Parser.item
  cases s.next?.bind extract with
  | none => exact .fail rfl
  | some value =>
    by_cases hnext : s.hasNext = true
    · simp only [State.advance, if_pos hnext]
      exact .moved (Nat.le_succ _) rfl
    · simp only [State.advance, if_neg hnext]
      exact .stayed rfl rfl

theorem atEnd : (Parser.atEnd (a := a)).TakesAtOnce := by
  intro s
  unfold Parser.atEnd
  split
  · exact .fail rfl
  · exact .stayed rfl rfl

theorem scan (matcher : List Char → Nat → Option (Nat × α)) (name : String) :
    (Parser.scan matcher name).TakesAtOnce := by
  intro s
  unfold Parser.scan
  cases matcher s.input s.index with
  | none => exact .fail rfl
  | some found =>
    dsimp only
    split
    · rename_i h
      exact .moved h.1 rfl
    · exact .fault _

/-- A look sets back both the place and the mark. -/
theorem peek (p : Parser a α) : (Parser.peek p).TakesAtOnce := by
  intro s
  rw [peek_apply]
  cases p s with
  | ok x t => exact .stayed rfl rfl
  | fail severity t => exact .fail rfl
  | fault f => exact .fault f

theorem notFollowedBy (p : Parser a α) (name : String) :
    (Parser.notFollowedBy p name).TakesAtOnce := by
  intro s
  cases h : p s.dropFailure with
  | ok x t => rw [notFollowedBy_ok h]; exact .fail rfl
  | fail severity t => rw [notFollowedBy_fail h]; exact .stayed rfl rfl
  | fault f => rw [notFollowedBy_fault h]; exact .fault f

theorem cut (stop : Nat) (kind : String → TokenKind) : (Parser.cut stop kind).TakesAtOnce := by
  intro s
  cases h : s.slice? s.index stop with
  | some chars => rw [cut_ok h]; exact .moved (Backtracks.slice?_bounds h).1 rfl
  | none => rw [cut_out h]; exact .fault _

theorem scanWord_place {words : Parser .text Unit} {s t : State .text} {stop : Option Nat}
    (h : Parser.scanWord words s = .ok (stop, t)) : t.index = s.index ∧ t.mark = s.mark := by
  cases h' : words s.dropFailure with
  | ok x u => rw [scanWord_ok h'] at h; cases h; exact ⟨rfl, rfl⟩
  | fail severity u => rw [scanWord_fail h'] at h; cases h; exact ⟨rfl, rfl⟩
  | fault g => rw [scanWord_fault h'] at h; cases h

/-- The scanner of words is only a look, whatever it consumes. -/
theorem terminal (lexicon : Lexicon) (words : Parser .text Unit) :
    (Parser.terminal lexicon words).TakesAtOnce := by
  intro s
  by_cases hs : s.input.length < s.index ∧ lexicon.operators ≠ []
  · rw [terminal_out hs.1 hs.2]; exact .fault _
  cases h : Parser.scanWord words s with
  | error f => rw [terminal_fault hs h]; exact .fault f
  | ok scanned =>
    obtain ⟨stop, t⟩ := scanned
    obtain ⟨hindex, hmark⟩ := scanWord_place h
    rcases terminal_scanned hs h with ⟨-, -, h'⟩ | ⟨n, -, -, h'⟩ | ⟨operator, -, -, h'⟩
    · rw [h']; exact .fail hmark
    · rw [h']; exact (cut n _ t).congr hindex hmark
    · rw [h']; exact (cut _ _ t).congr hindex hmark

/-! ## Put together -/

theorem orElse {p q : Parser a α} (hp : p.TakesAtOnce) (hq : q.TakesAtOnce) :
    (Parser.orElse p q).TakesAtOnce := by
  intro s
  have hs := hp s
  cases h : p s with
  | ok x t => rw [orElse_ok h, ← h]; exact hs
  | fail severity t =>
    cases severity with
    | recoverable =>
      rw [h] at hs
      cases hs with
      | fail mark => rw [orElse_recoverable h]; exact (hq _).congr rfl mark
    | committed => rw [orElse_committed h, ← h]; exact hs
  | fault f => rw [orElse_fault h]; exact .fault f

theorem label {p : Parser a α} (name : String) (hp : p.TakesAtOnce) :
    (Parser.label name p).TakesAtOnce := by
  intro s
  have hs := hp (s.dropFailure.note (.enter name))
  cases h : p (s.dropFailure.note (.enter name)) with
  | ok x t =>
    rw [h] at hs
    rw [label_ok h]
    cases hs with
    | stayed index mark => exact .stayed index mark
    | moved index_le mark => exact .moved index_le mark
  | fail severity t =>
    rw [h] at hs
    cases hs with
    | fail mark =>
      by_cases hbeyond : t.failedBeyond s.index = true
      · rw [label_beyond h hbeyond]; exact .fail mark
      · rw [label_named h hbeyond]; exact .fail mark
  | fault f => rw [label_fault h]; exact .fault f

theorem spanned {p : Parser .text α} (f : α → Nat → Nat → List Char → β) (hp : p.TakesAtOnce) :
    (Parser.spanned f p).TakesAtOnce := by
  intro s
  have hs := hp s
  cases h : p s with
  | ok x t =>
    rw [h] at hs
    cases hslice : t.slice? s.index t.index with
    | some text =>
      rw [spanned_ok h hslice]
      cases hs with
      | stayed index mark => exact .stayed index mark
      | moved index_le mark => exact .moved index_le mark
    | none => rw [spanned_out h hslice]; exact .fault _
  | fail severity t =>
    rw [h] at hs
    rw [spanned_fail h]
    cases hs with
    | fail mark => exact .fail mark
  | fault g => rw [spanned_fault h]; exact .fault g

end TakesAtOnce

end Parser

/-! ## The mark after a run -/

/-- A mark is past an index if the place is. -/
def State.Marked (i : Nat) (s : State a) : Prop :=
  i < s.index → i < s.mark

/-- What the mark says after a run from a state in which something was taken beyond an index, or
nothing was: it is past the index if it was so before or something was taken. -/
def Outcome.MarksPast (i : Nat) (s : State a) (taken : Prop) : Outcome a α → Prop
  | ok _ t => (i < t.mark ↔ i < s.mark ∨ taken) ∧ t.Marked i
  | fail _ t => i < t.mark ↔ i < s.mark ∨ taken
  | fault _ => True

namespace Outcome.MarksPast

variable {i : Nat} {s t : State a} {taken taken' : Prop} {outcome : Outcome a α} {x : α}
  {severity : Severity}

theorem congr (h : outcome.MarksPast i s taken) (hiff : taken ↔ taken') :
    outcome.MarksPast i s taken' :=
  propext hiff ▸ h

theorem map (h : outcome.MarksPast i s taken) (f : α → β) :
    (outcome.map f).MarksPast i s taken := by
  cases outcome <;> exact h

theorem backTo (h : outcome.MarksPast i s taken) (index : Nat) :
    (outcome.backTo index).MarksPast i s taken := by
  cases outcome <;> exact h

/-- A run that goes on where another one ended. -/
theorem trans (ht : i < t.mark ↔ i < s.mark ∨ taken) (h : outcome.MarksPast i t taken') :
    outcome.MarksPast i s (taken ∨ taken') := by
  cases outcome with
  | ok x u => exact ⟨h.1.trans (by rw [ht, or_assoc]), h.2⟩
  | fail severity u => exact Iff.trans h (by rw [ht, or_assoc])
  | fault g => trivial

/-- What was taken in one go was taken beyond an index if that is where it ends. -/
theorem of_takenAtOnce (hs : s.Marked i) (h : outcome.TakenAtOnce s) :
    outcome.MarksPast i s (∃ x t, outcome = .ok x t ∧ s.index < t.index ∧ i < t.index) := by
  cases h with
  | @stayed x t index mark =>
    have hnone : ¬ ∃ y u, (.ok x t : Outcome a α) = .ok y u ∧ s.index < u.index ∧ i < u.index := by
      rintro ⟨_, _, ⟨⟩, hmoved, -⟩
      exact absurd hmoved (index ▸ Nat.lt_irrefl _)
    refine ⟨by rw [mark, or_iff_left hnone], ?_⟩
    intro hpast
    rw [mark]
    exact hs (index ▸ hpast)
  | @moved x t index_le mark =>
    refine ⟨?_, fun hpast => mark ▸ Nat.lt_of_lt_of_le hpast (Nat.le_max_right _ _)⟩
    have hmax : i < max s.mark t.index ↔ i < s.mark ∨ i < t.index := by omega
    rw [mark, hmax]
    constructor
    · rintro (hmark | hpast)
      · exact .inl hmark
      · rcases Nat.lt_or_eq_of_le index_le with hmoved | hstill
        · exact .inr ⟨x, t, rfl, hmoved, hpast⟩
        · exact .inl (hs (hstill ▸ hpast))
    · rintro (hmark | ⟨_, _, ⟨⟩, -, hpast⟩)
      · exact .inl hmark
      · exact .inr hpast
  | @fail severity t mark =>
    have hnone : ¬ ∃ y u, (.fail severity t : Outcome a α) = .ok y u ∧ s.index < u.index ∧
        i < u.index := nofun
    show i < t.mark ↔ _
    rw [mark, or_iff_left hnone]
  | fault g => trivial

/-- An application that ends beyond an index has the mark there, so nothing is said in addition if it
is counted as something taken. -/
theorem or_end (h : outcome.MarksPast i s taken) :
    outcome.MarksPast i s
      ((∃ x t, outcome = .ok x t ∧ s.index < t.index ∧ i < t.index) ∨ taken) := by
  cases outcome with
  | ok x t =>
    refine ⟨⟨fun hmark => (h.1.mp hmark).imp_right .inr, ?_⟩, h.2⟩
    rintro (hmark | ⟨_, _, ⟨⟩, -, hpast⟩ | htaken)
    · exact h.1.mpr (.inl hmark)
    · exact h.2 hpast
    · exact h.1.mpr (.inr htaken)
  | fail severity t =>
    refine ⟨fun hmark => (Iff.mp h hmark).imp_right .inr, ?_⟩
    rintro (hmark | ⟨_, _, ⟨⟩, -⟩ | htaken)
    · exact Iff.mpr h (.inl hmark)
    · exact Iff.mpr h (.inr htaken)
  | fault g => trivial

end Outcome.MarksPast

namespace Parser

section

open Outcome (MarksPast)

variable {i : Nat} {p : Parser a α} {s t : State a} {first : Prop} {second : State a → Prop}

theorem marksPast_seqWith (f : α → β → γ) {q : Parser a β} (hp : (p s).MarksPast i s first)
    (hq : ∀ x t, p s = .ok x t → t.Marked i → (q t).MarksPast i t (second t)) :
    (seqWith f p q s).MarksPast i s (first ∨ ∃ x t, p s = .ok x t ∧ second t) := by
  cases h : p s with
  | ok x t =>
    rw [h] at hp
    rw [seqWith_of_ok h]
    have hrest := (((hq x t h hp.2).trans hp.1).map (f x)).backTo s.index
    refine hrest.congr (or_congr_right ⟨fun hsecond => ⟨x, t, rfl, hsecond⟩, ?_⟩)
    rintro ⟨_, _, ⟨⟩, hsecond⟩
    exact hsecond
  | fail severity t =>
    rw [h] at hp
    rw [seqWith_fail h]
    exact hp.congr (or_iff_left nofun).symm
  | fault g => rw [seqWith_fault h]; trivial

theorem marksPast_orElse {q : Parser a α} (hp : (p s).MarksPast i s first) (hs : s.Marked i)
    (hq : ∀ t, p s = .fail .recoverable t → (t.restore s.index).Marked i →
      (q (t.restore s.index)).MarksPast i (t.restore s.index) (second t)) :
    (orElse p q s).MarksPast i s (first ∨ ∃ t, p s = .fail .recoverable t ∧ second t) := by
  cases h : p s with
  | ok x t =>
    rw [orElse_ok h, ← h]
    exact hp.congr (or_iff_left (by rw [h]; exact nofun)).symm
  | fail severity t =>
    cases severity with
    | recoverable =>
      rw [h] at hp
      rw [orElse_recoverable h]
      have hback : (t.restore s.index).Marked i := fun hpast => Iff.mpr hp (.inl (hs hpast))
      refine ((hq t h hback).trans hp).congr
        (or_congr_right ⟨fun hsecond => ⟨t, rfl, hsecond⟩, ?_⟩)
      rintro ⟨_, ⟨⟩, hsecond⟩
      exact hsecond
    | committed =>
      rw [h] at hp
      rw [orElse_committed h]
      exact hp.congr (or_iff_left nofun).symm
  | fault g => rw [orElse_fault h]; trivial

/-- The mark of the operand starts at the place and is put together with the mark before. -/
theorem marksPast_atomic (hs : s.Marked i)
    (hp : (p { s with mark := s.index }).MarksPast i { s with mark := s.index } first) :
    (atomic p s).MarksPast i s first := by
  have hraise : ∀ t : State a, (i < t.mark ↔ i < s.index ∨ first) →
      (i < (t.raiseMark s.mark).mark ↔ i < s.mark ∨ first) := by
    intro t ht
    have hmax : i < max t.mark s.mark ↔ i < t.mark ∨ i < s.mark := by omega
    rw [State.raiseMark, hmax, ht]
    constructor
    · rintro ((hindex | hfirst) | hmark)
      · exact .inl (hs hindex)
      · exact .inr hfirst
      · exact .inl hmark
    · rintro (hmark | hfirst)
      · exact .inr hmark
      · exact .inl (.inr hfirst)
  cases h : p { s with mark := s.index } with
  | ok x t =>
    rw [h] at hp
    rw [atomic_ok h]
    exact ⟨hraise t hp.1, fun hpast => Nat.lt_of_lt_of_le (hp.2 hpast) (Nat.le_max_left _ _)⟩
  | fail severity t =>
    rw [h] at hp
    cases severity with
    | recoverable =>
      by_cases hmark : s.index < t.mark
      · rw [atomic_consumed h hmark]; exact hraise t hp
      · rw [atomic_untouched h hmark]; exact hraise t hp
    | committed => rw [atomic_committed h]; exact hraise t hp
  | fault g => rw [atomic_fault h]; trivial

theorem marksPast_iterate (n : Nat) (hs : s.Marked i)
    (hp : ∀ t ∈ p.rounds n s, t.Marked i → (p t).MarksPast i t (second t)) :
    (iterate p n s).MarksPast i s (∃ t ∈ p.rounds n s, second t) := by
  induction n generalizing s with
  | zero => trivial
  | succ n ih =>
    have hround := hp s (.head _) hs
    cases h : p s with
    | ok x t =>
      by_cases hindex : t.index = s.index
      · rw [iterate_stuck h hindex]; trivial
      · have hrounds : p.rounds (n + 1) s = s :: p.rounds n t := by
          simp only [rounds, h, if_neg hindex]
        rw [hrounds] at hp ⊢
        rw [h] at hround
        rw [iterate_moved h hindex]
        have hrest := ih hround.2 fun u hu => hp u (.tail _ hu)
        refine ((hrest.trans hround.1).map (x :: ·)).congr ?_
        simp only [List.mem_cons, exists_eq_or_imp]
    | fail severity t =>
      have hrounds : p.rounds (n + 1) s = [s] := by simp only [rounds, h]
      have honly : (∃ t ∈ p.rounds (n + 1) s, second t) ↔ second s := by
        simp only [hrounds, List.mem_singleton, exists_eq_left]
      rw [h] at hround
      cases severity with
      | recoverable =>
        rw [iterate_recoverable h]
        exact MarksPast.congr ⟨hround, fun hpast => Iff.mpr hround (.inl (hs hpast))⟩ honly.symm
      | committed => rw [iterate_committed h]; exact hround.congr honly.symm
    | fault g => rw [iterate_fault h]; trivial

theorem marksPast_many (hs : s.Marked i)
    (hp : ∀ t ∈ p.rounds (s.input.length - s.index + 1) s, t.Marked i →
      (p t).MarksPast i t (second t)) :
    (many p s).MarksPast i s (∃ t ∈ p.rounds (s.input.length - s.index + 1) s, second t) := by
  rw [many_apply]
  exact (marksPast_iterate _ hs hp).backTo s.index

theorem marksPast_label (name : String)
    (hp : (p (s.dropFailure.note (.enter name))).MarksPast i
      (s.dropFailure.note (.enter name)) first) :
    (label name p s).MarksPast i s first := by
  cases h : p (s.dropFailure.note (.enter name)) with
  | ok x t => rw [h] at hp; rw [label_ok h]; exact hp
  | fail severity t =>
    rw [h] at hp
    by_cases hbeyond : t.failedBeyond s.index = true
    · rw [label_beyond h hbeyond]; exact hp
    · rw [label_named h hbeyond]; exact hp
  | fault g => rw [label_fault h]; trivial

theorem marksPast_traced (name : String) (render : α → String)
    (hp : (p (s.note (.enter name))).MarksPast i (s.note (.enter name)) first) :
    (traced name render p s).MarksPast i s first := by
  cases h : p (s.note (.enter name)) with
  | ok x t => rw [h] at hp; rw [traced_ok h]; exact hp
  | fail severity t => rw [h] at hp; rw [traced_fail h]; exact hp
  | fault g => rw [traced_fault h]; trivial

end

section

open Outcome (MarksPast)

variable {i : Nat} {s : State .text} {taken : Prop}

theorem marksPast_spanned {p : Parser .text α} (f : α → Nat → Nat → List Char → β)
    (hp : (p s).MarksPast i s taken) : (spanned f p s).MarksPast i s taken := by
  cases h : p s with
  | ok x t =>
    rw [h] at hp
    cases hslice : t.slice? s.index t.index with
    | some text => rw [spanned_ok h hslice]; exact hp
    | none => rw [spanned_out h hslice]; trivial
  | fail severity t => rw [h] at hp; rw [spanned_fail h]; exact hp
  | fault g => rw [spanned_fault h]; trivial

/-- The mark is that of the lexer: the grammar has one of its own, among the tokens. -/
theorem marksPast_staged {grammar : Parser .tokens α} {lexer : Parser .text (List Token)}
    (hlexer : (lexer s.dropFailure).MarksPast i s.dropFailure taken) :
    (staged grammar lexer s).MarksPast i s taken := by
  cases h : lexer s.dropFailure with
  | ok tokens t =>
    rw [h] at hlexer
    cases h' : grammar { input := tokens, events := t.events } with
    | ok x u => rw [staged_ok_ok h h']; exact hlexer
    | fail severity u => rw [staged_ok_fail h h']; exact hlexer.1
    | fault g => rw [staged_ok_fault h h']; trivial
  | fail severity t => rw [h] at hlexer; rw [staged_fail h]; exact hlexer
  | fault g => rw [staged_fault h]; trivial

end

end Parser

/-! ## What consumes -/

namespace Application

variable {S : Scope} (bindings : Bindings S)

/-- What is applied directly inside an application and counts for what it takes of its input. A look
does not, and neither does a grammar of tokens, which has an input of its own. -/
def taking : Application S → List (Application S)
  | ⟨_, .peek _, _⟩ => []
  | ⟨_, .notFollowedBy _ _, _⟩ => []
  | ⟨_, .terminal _ _, _⟩ => []
  | ⟨depth, .staged _ lexer, s⟩ => [⟨depth, lexer, s.dropFailure⟩]
  | app => app.inner bindings

/-- An application consumes past an index: it moves and ends beyond the index, or something applied
inside it does so that is not only looked at, whatever became of it afterwards. -/
inductive ConsumesPast (i : Nat) : Application S → Prop where
  | here {app : Application S} {x : app.Value} {t : State app.alphabet}
      (run : app.outcome bindings = .ok x t) (moved : app.state.index < t.index)
      (beyond : i < t.index) : ConsumesPast i app
  | inside {app part : Application S} (mem : part ∈ app.taking bindings)
      (taken : ConsumesPast i part) : ConsumesPast i app

variable {bindings} {i : Nat}

theorem consumesPast_iff {app : Application S} : app.ConsumesPast bindings i ↔
    (∃ x t, app.outcome bindings = .ok x t ∧ app.state.index < t.index ∧ i < t.index) ∨
      ∃ part ∈ app.taking bindings, part.ConsumesPast bindings i := by
  constructor
  · intro h
    cases h with
    | here run moved beyond => exact .inl ⟨_, _, run, moved, beyond⟩
    | inside mem taken => exact .inr ⟨_, mem, taken⟩
  · rintro (⟨x, t, run, moved, beyond⟩ | ⟨part, mem, taken⟩)
    · exact .here run moved beyond
    · exact .inside mem taken

/-- What the mark says of an application if it says so of what counts for it. -/
theorem marksPast_of_taking {app : Application S}
    (h : (app.outcome bindings).MarksPast i app.state
      (∃ part ∈ app.taking bindings, part.ConsumesPast bindings i)) :
    (app.outcome bindings).MarksPast i app.state (app.ConsumesPast bindings i) :=
  h.or_end.congr consumesPast_iff.symm

/-- What the mark says of an application that takes in one go. -/
theorem marksPast_of_takesAtOnce {depth : Nat} {g : Grammar S a α} {s : State a}
    (hs : s.Marked i) (htaking : taking bindings ⟨depth, g, s⟩ = [])
    (h : (g.run (bindings.resolver depth)).TakesAtOnce) :
    (outcome bindings ⟨depth, g, s⟩).MarksPast i s (ConsumesPast bindings i ⟨depth, g, s⟩) := by
  refine (Outcome.MarksPast.of_takenAtOnce hs (h s)).congr ?_
  rw [consumesPast_iff, htaking]
  exact (or_iff_left nofun).symm

section

variable {depth : Nat}

/-- What the mark says of an application for which one other counts. -/
theorem marksPast_of_single {app part : Application S} (htaking : app.taking bindings = [part])
    (h : (app.outcome bindings).MarksPast i app.state (part.ConsumesPast bindings i)) :
    (app.outcome bindings).MarksPast i app.state (app.ConsumesPast bindings i) := by
  refine marksPast_of_taking (h.congr ?_)
  simp only [htaking, List.mem_singleton, exists_eq_left]

theorem exists_taking_seqWith {f : α → β → γ} {p : Grammar S a α} {q : Grammar S a β}
    {s : State a} :
    (∃ part ∈ taking bindings ⟨depth, .seqWith f p q, s⟩, part.ConsumesPast bindings i) ↔
      ConsumesPast bindings i ⟨depth, p, s⟩ ∨
        ∃ x t, p.run (bindings.resolver depth) s = .ok x t ∧
          ConsumesPast bindings i ⟨depth, q, t⟩ := by
  show (∃ part ∈ inner bindings ⟨depth, .seqWith f p q, s⟩, part.ConsumesPast bindings i) ↔ _
  constructor
  · rintro ⟨part, hpart, htaken⟩
    rcases mem_inner_seqWith.mp hpart with rfl | ⟨x, t, ht, rfl⟩
    · exact .inl htaken
    · exact .inr ⟨x, t, ht, htaken⟩
  · rintro (htaken | ⟨x, t, ht, htaken⟩)
    · exact ⟨_, mem_inner_seqWith.mpr (.inl rfl), htaken⟩
    · exact ⟨_, mem_inner_seqWith.mpr (.inr ⟨x, t, ht, rfl⟩), htaken⟩

theorem exists_taking_orElse {p q : Grammar S a α} {s : State a} :
    (∃ part ∈ taking bindings ⟨depth, .orElse p q, s⟩, part.ConsumesPast bindings i) ↔
      ConsumesPast bindings i ⟨depth, p, s⟩ ∨
        ∃ t, p.run (bindings.resolver depth) s = .fail .recoverable t ∧
          ConsumesPast bindings i ⟨depth, q, t.restore s.index⟩ := by
  show (∃ part ∈ inner bindings ⟨depth, .orElse p q, s⟩, part.ConsumesPast bindings i) ↔ _
  constructor
  · rintro ⟨part, hpart, htaken⟩
    rcases mem_inner_orElse.mp hpart with rfl | ⟨t, ht, rfl⟩
    · exact .inl htaken
    · exact .inr ⟨t, ht, htaken⟩
  · rintro (htaken | ⟨t, ht, htaken⟩)
    · exact ⟨_, mem_inner_orElse.mpr (.inl rfl), htaken⟩
    · exact ⟨_, mem_inner_orElse.mpr (.inr ⟨t, ht, rfl⟩), htaken⟩

theorem exists_taking_many {p : Grammar S a α} {s : State a} :
    (∃ part ∈ taking bindings ⟨depth, .many p, s⟩, part.ConsumesPast bindings i) ↔
      ∃ t ∈ (p.run (bindings.resolver depth)).rounds (s.input.length - s.index + 1) s,
        ConsumesPast bindings i ⟨depth, p, t⟩ := by
  show (∃ part ∈ inner bindings ⟨depth, .many p, s⟩, part.ConsumesPast bindings i) ↔ _
  constructor
  · rintro ⟨part, hpart, htaken⟩
    obtain ⟨t, ht, rfl⟩ := mem_inner_many.mp hpart
    exact ⟨t, ht, htaken⟩
  · rintro ⟨t, ht, htaken⟩
    exact ⟨_, mem_inner_many.mpr ⟨t, ht, rfl⟩, htaken⟩

end

variable (bindings) in
/-- The mark tells whether an application has consumed past an index. The induction is on what is
applied inside it. -/
theorem marksPast (app : Application S) (hs : app.state.Marked i) :
    (app.outcome bindings).MarksPast i app.state (app.ConsumesPast bindings i) := by
  induction app using (inner_wellFounded bindings).induction with
  | h app ih =>
  obtain ⟨depth, g, s⟩ := app
  cases g with
  | item extract names => exact marksPast_of_takesAtOnce hs rfl (.item extract names)
  | atEnd => exact marksPast_of_takesAtOnce hs rfl .atEnd
  | pure value => exact marksPast_of_takesAtOnce hs rfl fun _ => .stayed rfl rfl
  | refuse message => exact marksPast_of_takesAtOnce hs rfl fun _ => .fail rfl
  | silent severity => exact marksPast_of_takesAtOnce hs rfl fun _ => .fail rfl
  | scan matcher name => exact marksPast_of_takesAtOnce hs rfl (.scan matcher name)
  | peek p => exact marksPast_of_takesAtOnce hs rfl (.peek _)
  | notFollowedBy p name => exact marksPast_of_takesAtOnce hs rfl (.notFollowedBy _ name)
  | terminal lexicon words => exact marksPast_of_takesAtOnce hs rfl (.terminal lexicon _)
  | map f p =>
    have hp := ih ⟨depth, p, s⟩ (.head _) hs
    exact marksPast_of_single rfl (hp.map f)
  | seqWith f p q =>
    have hp := ih ⟨depth, p, s⟩ (mem_inner_seqWith.mpr (.inl rfl)) hs
    have hseq := Parser.marksPast_seqWith f hp fun x t ht hmarked =>
      ih ⟨depth, q, t⟩ (mem_inner_seqWith.mpr (.inr ⟨x, t, ht, rfl⟩)) hmarked
    exact marksPast_of_taking (hseq.congr exists_taking_seqWith.symm)
  | orElse p q =>
    have hp := ih ⟨depth, p, s⟩ (mem_inner_orElse.mpr (.inl rfl)) hs
    have hchoice := Parser.marksPast_orElse (q := q.run (bindings.resolver depth)) hp hs
      fun t ht hmarked =>
        ih ⟨depth, q, t.restore s.index⟩ (mem_inner_orElse.mpr (.inr ⟨t, ht, rfl⟩)) hmarked
    exact marksPast_of_taking (hchoice.congr exists_taking_orElse.symm)
  | atomic p =>
    have hp := ih ⟨depth, p, { s with mark := s.index }⟩ (.head _) fun hpast => hpast
    exact marksPast_of_single rfl (Parser.marksPast_atomic hs hp)
  | many p =>
    have hmany := Parser.marksPast_many hs fun t ht hmarked =>
      ih ⟨depth, p, t⟩ (mem_inner_many.mpr ⟨t, ht, rfl⟩) hmarked
    exact marksPast_of_taking (hmany.congr exists_taking_many.symm)
  | label name p =>
    have hp := ih ⟨depth, p, s.dropFailure.note (.enter name)⟩ (.head _) hs
    exact marksPast_of_single rfl (Parser.marksPast_label name hp)
  | traced name render p =>
    have hp := ih ⟨depth, p, s.note (.enter name)⟩ (.head _) hs
    exact marksPast_of_single rfl (Parser.marksPast_traced name render hp)
  | spanned f p =>
    have hp := ih ⟨depth, p, s⟩ (.head _) hs
    exact marksPast_of_single rfl (Parser.marksPast_spanned f hp)
  | staged grammar lexer =>
    have hlexer := ih ⟨depth, lexer, s.dropFailure⟩ (mem_inner_staged.mpr (.inl rfl)) hs
    exact marksPast_of_single rfl (Parser.marksPast_staged hlexer)
  | ref x =>
    cases depth with
    | zero =>
      unfold outcome Grammar.run Bindings.resolver
      cases bindings.lookup? x <;> trivial
    | succ depth =>
      cases hx : bindings.lookup? x with
      | none =>
        simp only [outcome, Grammar.run, Bindings.resolver, hx]
        trivial
      | some g =>
        have hg := ih ⟨depth, g, s⟩ (mem_inner_ref.mpr ⟨depth, g, rfl, hx, rfl⟩) hs
        have houtcome : outcome bindings ⟨depth + 1, .ref x, s⟩ =
            outcome bindings ⟨depth, g, s⟩ := by
          simp only [outcome, Grammar.run, Bindings.resolver, hx]
        have htaking : taking bindings ⟨depth + 1, .ref x, s⟩ = [⟨depth, g, s⟩] := by
          simp only [taking, inner, hx]
          rfl
        refine marksPast_of_single htaking ?_
        rw [houtcome]
        exact hg

end Application

end Descent
