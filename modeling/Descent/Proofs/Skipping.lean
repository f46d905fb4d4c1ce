import Descent.Proofs.Pattern.Bounded
import Descent.Proofs.Places
import Descent.Proofs.Reading
import Descent.Proofs.Retained

/-!
What is skipped between words: white space and comments.

They come in pieces (`Filler`), and what a piece is and how far it goes is settled by the index where it
begins (`Filler.unique`). So the alternatives for a piece take it whichever of them it is
(`Rules.filler_cases`), the repetition of them goes from one piece to the next, and it ends where none
begins (`Skipped`), which is one place only (`Skipped.unique`) and is reached from any piece
(`exists_skipped`).

In words of a machine the same is skipped, as long as there is room for an opening mark behind the
index where the skipping begins (`Rules.blanksAndCommentsWithin_eq`).
-/

namespace Descent

open Pattern Relation

/-- A piece of what may stand between words: white space or a comment, as far as it goes. A comment up
to the end of its line leaves the line break, and one between marks goes up to its first closing
mark. -/
inductive Filler (text : List Char) (start : Nat) : Nat → Prop where
  | blanks {stop : Nat} (ahead : start < stop) (run : RunsTo Text.isBlank text start stop) :
      Filler text start stop
  | lineComment {stop : Nat} (opened : ['/', '/'] <+: text.drop start)
      (run : RunsTo (· != '\n') text (start + 2) stop) : Filler text start stop
  | blockComment {stop : Nat} (comment : Commented ['/', '*'] ['*', '/'] text start stop) :
      Filler text start stop

/-- From one index to another stand pieces one after another, at least one, and no other begins there. -/
structure Skipped (text : List Char) (start stop : Nat) : Prop where
  pieces : TransGen (Filler text) start stop
  ended : ¬ ∃ later, Filler text stop later

/-! ## Pieces -/

section

variable {text : List Char} {start stop other : Nat}

theorem filler_iff : Filler text start stop ↔ Pattern.blanks.endAt text start = some stop ∨
    (Pattern.lineComment ['/', '/']).endAt text start = some stop ∨
      (Pattern.blockComment ['/', '*'] ['*', '/']).endAt text start = some stop := by
  rw [Pattern.blanks, endAt_oneOrMore_iff, endAt_lineComment_iff,
    endAt_blockComment_iff (List.cons_ne_nil _ _)]
  constructor
  · rintro (⟨ahead, run⟩ | ⟨opened, run⟩ | comment)
    · exact .inl ⟨ahead, run⟩
    · exact .inr (.inl ⟨opened, run⟩)
    · exact .inr (.inr comment)
  · rintro (⟨ahead, run⟩ | ⟨opened, run⟩ | comment)
    · exact .blanks ahead run
    · exact .lineComment opened run
    · exact .blockComment comment

theorem Filler.lt (h : Filler text start stop) : start < stop := by
  cases h with
  | blanks ahead run => exact ahead
  | lineComment opened run => exact Nat.lt_of_lt_of_le (Nat.lt_add_of_pos_right Nat.two_pos) run.ordered
  | blockComment comment =>
    obtain ⟨-, k, ⟨⟨hbehind, -⟩, -⟩, rfl⟩ := comment
    simp only [List.length_cons, List.length_nil] at hbehind ⊢
    omega

theorem Filler.le_length (h : Filler text start stop) : stop ≤ text.length := by
  rcases filler_iff.mp h with h | h | h
  · exact (Standard.blanks.fits.endAt_bounds h).2
  · exact ((Standard.lineComment _).fits.endAt_bounds h).2
  · exact ((Standard.blockComment _ _).fits.endAt_bounds h).2

/-- No comment begins with a blank. -/
theorem not_opened_of_blanks (run : RunsTo Text.isBlank text start stop) (ahead : start < stop)
    (c : Char) : ¬ ['/', c] <+: text.drop start := by
  obtain ⟨d, rest, hdrop, hblank⟩ := run.head ahead
  rw [hdrop, List.cons_prefix_cons]
  rintro ⟨rfl, -⟩
  exact absurd hblank (by decide)

/-- The second character tells the two kinds of comments apart. -/
theorem not_opened_twice (opened : ['/', '/'] <+: text.drop start) :
    ¬ ['/', '*'] <+: text.drop start := fun opened' =>
  absurd (List.prefix_of_prefix_length_le opened opened' (Nat.le_refl 2)) (by decide)

/-- How far a piece goes is settled by where it begins. -/
theorem Filler.unique (h : Filler text start stop) (h' : Filler text start other) :
    stop = other := by
  cases h with
  | blanks ahead run =>
    cases h' with
    | blanks ahead' run' => exact run.unique run'
    | lineComment opened' run' => exact absurd opened' (not_opened_of_blanks run ahead '/')
    | blockComment comment' => exact absurd comment'.opened (not_opened_of_blanks run ahead '*')
  | lineComment opened run =>
    cases h' with
    | blanks ahead' run' => exact absurd opened (not_opened_of_blanks run' ahead' '/')
    | lineComment opened' run' => exact run.unique run'
    | blockComment comment' => exact absurd comment'.opened (not_opened_twice opened)
  | blockComment comment =>
    cases h' with
    | blanks ahead' run' => exact absurd comment.opened (not_opened_of_blanks run' ahead' '*')
    | lineComment opened' run' => exact absurd comment.opened (not_opened_twice opened')
    | blockComment comment' => exact comment.unique comment'

/-! ## Pieces one after another -/

theorem Skipped.lt (h : Skipped text start stop) : start < stop := by
  obtain ⟨hpieces, -⟩ := h
  induction hpieces with
  | single hpiece => exact hpiece.lt
  | tail _ hpiece ih => exact ih.trans hpiece.lt

/-- Pieces one after another lead to one place where no other begins. -/
theorem Skipped.unique (h : Skipped text start stop) (h' : Skipped text start other) :
    stop = other := by
  have hstay {i j : Nat} (hi : ¬ ∃ later, Filler text i later)
      (hij : ReflTransGen (Filler text) i j) : i = j := by
    rcases hij.cases_head with heq | ⟨k, hk, -⟩
    · exact heq
    · exact absurd ⟨k, hk⟩ hi
  have hunique : Relator.RightUnique (Filler text) := fun _ _ _ h h' => h.unique h'
  rcases h.pieces.to_reflTransGen.total_of_right_unique hunique h'.pieces.to_reflTransGen with
    hlater | hlater
  · exact hstay h.ended hlater
  · exact (hstay h'.ended hlater).symm

/-- From any piece on they come to an end. The induction is on the characters that are left. -/
theorem exists_skipped (h : Filler text start stop) : ∃ last, Skipped text start last := by
  induction hleft : text.length - start using Nat.strongRecOn generalizing start stop with
  | ind left ih =>
    by_cases hmore : ∃ later, Filler text stop later
    · obtain ⟨later, hlater⟩ := hmore
      have hlt := h.lt
      have hwithin := h.le_length
      obtain ⟨last, hpieces, hended⟩ := ih _ (by omega) hlater rfl
      exact ⟨last, .head h hpieces, hended⟩
    · exact ⟨stop, .single h, hmore⟩

end

/-! ## Runs -/

/-- White space or a comment. -/
def Grammar.filler {S : Scope} : Grammar S .text Unit :=
  choice [blanks, lineComment "//", blockComment "/*" "*/"]

/-! The same with the patterns that go from index to index in words up to a limit. There an end that is
no index is a fault. -/

namespace Parser

/-- Goes where a matcher leads that may come to an end that is no index. -/
def scanWithin (matcher : List Char → Nat → Option (Option Nat)) (name : String) :
    Parser .text Unit :=
  fun s =>
    match matcher s.input s.index with
    | some found => scan (fun _ _ => found.map (·, ())) name s
    | none => .fault .outOfRange

/-- White space or a comment. -/
def fillerWithin (limit : Nat) : Parser .text Unit :=
  orElse
    (orElse (scanWithin (blanksWithin? limit) "whitespaces")
      (scanWithin (lineCommentWithin? limit ['/', '/']) "line comment"))
    (scanWithin (blockCommentWithin? limit ['/', '*'] ['*', '/']) "block comment")

/-- One or more of them. -/
def blanksAndCommentsWithin (limit : Nat) : Parser .text Unit :=
  map (fun _ => ()) (seqWith List.cons (fillerWithin limit) (many (fillerWithin limit)))

theorem scanWithin_eq {matcher : List Char → Nat → Option (Option Nat)} {pattern : Pattern}
    {s : State .text} (name : String)
    (h : matcher s.input s.index = some (pattern.endAt s.input s.index)) :
    scanWithin matcher name s =
      scan (fun text start => (pattern.endAt text start).map (·, ())) name s := by
  simp only [scanWithin, h, scan]

theorem scanWithin_eq_fault {matcher : List Char → Nat → Option (Option Nat)} {s : State .text}
    (name : String) (h : matcher s.input s.index = none) :
    scanWithin matcher name s = .fault .outOfRange := by
  simp only [scanWithin, h]

end Parser

namespace Rules

variable {S : Scope} (rules : Rules S)

/-- What the alternatives for a piece do: one of them takes it, or, where there is none, all of them are
expected. -/
theorem filler_cases (s : State .text) :
    (∃ t, rules.parser .filler s = .ok () t ∧ Filler s.input s.index t.index) ∨
      (¬ ∃ stop, Filler s.input s.index stop) ∧ rules.parser .filler s =
        .fail .recoverable (s.expect ["whitespaces", "line comment", "block comment"]) := by
  simp only [filler_iff]
  cases hblanks : Pattern.blanks.endAt s.input s.index with
  | some stop =>
    have hrun := Parser.scan_pattern_ok Standard.blanks.fits "whitespaces" hblanks
    exact .inl ⟨_, Parser.orElse_ok (Parser.orElse_ok hrun), .inl rfl⟩
  | none =>
    have hfirst := Parser.scan_pattern_fail "whitespaces" hblanks
    cases hline : (Pattern.lineComment ['/', '/']).endAt s.input s.index with
    | some stop =>
      have hrun := Parser.scan_pattern_ok (Standard.lineComment _).fits "line comment"
        (s := s.expect ["whitespaces"]) hline
      exact .inl ⟨_, Parser.orElse_ok ((Parser.orElse_recoverable hfirst).trans hrun), .inr (.inl rfl)⟩
    | none =>
      have hsecond := Parser.scan_pattern_fail "line comment" (s := s.expect ["whitespaces"]) hline
      rw [State.expect_append] at hsecond
      have hboth := (Parser.orElse_recoverable hfirst).trans hsecond
      cases hblock : (Pattern.blockComment ['/', '*'] ['*', '/']).endAt s.input s.index with
      | some stop =>
        have hrun := Parser.scan_pattern_ok (Standard.blockComment _ _).fits "block comment"
          (s := s.expect ["whitespaces", "line comment"]) hblock
        exact .inl ⟨_, (Parser.orElse_recoverable hboth).trans hrun, .inr (.inr rfl)⟩
      | none =>
        have hthird := Parser.scan_pattern_fail "block comment"
          (s := s.expect ["whitespaces", "line comment"]) hblock
        rw [State.expect_append] at hthird
        exact .inr ⟨by simp, (Parser.orElse_recoverable hboth).trans hthird⟩

section

variable {text : List Char} {i k : Nat}

theorem filler_yields_iff : (rules.parser .filler).Yields text i () k ↔ Filler text i k := by
  rcases rules.filler_cases { input := text, index := i } with ⟨t, ht, hfiller⟩ | ⟨hnone, hfail⟩
  · constructor
    · rintro ⟨u, hu, rfl⟩
      cases ht.symm.trans hu
      exact hfiller
    · exact fun h => ⟨t, ht, hfiller.unique h⟩
  · constructor
    · rintro ⟨u, hu, -⟩
      cases hfail.symm.trans hu
    · exact fun h => absurd ⟨k, h⟩ hnone

theorem filler_failsAt_iff :
    (rules.parser .filler).FailsAt text i .recoverable ↔ ¬ ∃ stop, Filler text i stop := by
  rcases rules.filler_cases { input := text, index := i } with ⟨t, ht, hfiller⟩ | ⟨hnone, hfail⟩
  · refine iff_of_false ?_ (not_not_intro ⟨_, hfiller⟩)
    rintro ⟨u, hu⟩
    cases ht.symm.trans hu
  · exact iff_of_true ⟨_, hfail⟩ hnone

/-- The repetition goes from piece to piece. -/
theorem exists_steps_filler_iff :
    (∃ xs, (rules.parser .filler).Steps text i xs k) ↔ ReflTransGen (Filler text) i k := by
  have hstep : (fun i j => i < j ∧ ∃ x, (rules.parser .filler).Yields text i x j) =
      Filler text := by
    funext i j
    refine propext ⟨?_, fun h => ⟨h.lt, (), rules.filler_yields_iff.mpr h⟩⟩
    rintro ⟨-, ⟨⟩, hyields⟩
    exact rules.filler_yields_iff.mp hyields
  rw [Parser.exists_steps_iff, hstep]

theorem blanksAndComments_yields_iff :
    (rules.parser .blanksAndComments).Yields text i () k ↔ Skipped text i k := by
  have hpieces {xs : List Unit} : (rules.parser (.oneOrMore .filler)).Yields text i xs k ↔
      ∃ x j rest, (rules.parser .filler).Yields text i x j ∧
        (rules.parser .filler).Steps text j rest k ∧
          (rules.parser .filler).FailsAt text k .recoverable ∧ xs = x :: rest :=
    Parser.oneOrMore_yields_iff (rules.parser_withPast _) (rules.parser_backtracks _)
      (rules.parser_standsPastEnd _)
  constructor
  · intro h
    obtain ⟨xs, hxs, -⟩ := (Parser.map_yields_iff _).mp h
    obtain ⟨⟨⟩, j, rest, hfirst, hsteps, hfails, -⟩ := hpieces.mp hxs
    have hmore := rules.exists_steps_filler_iff.mp ⟨rest, hsteps⟩
    exact ⟨.head' (rules.filler_yields_iff.mp hfirst) hmore, rules.filler_failsAt_iff.mp hfails⟩
  · rintro ⟨hchain, hended⟩
    obtain ⟨j, hfirst, hmore⟩ := TransGen.head'_iff.mp hchain
    obtain ⟨rest, hsteps⟩ := rules.exists_steps_filler_iff.mpr hmore
    have hxs := hpieces.mpr ⟨(), j, rest, rules.filler_yields_iff.mpr hfirst, hsteps,
      rules.filler_failsAt_iff.mpr hended, rfl⟩
    exact (Parser.map_yields_iff _).mpr ⟨_, hxs, rfl⟩

end

section

variable {s : State .text}

/-- From a piece on, pieces are skipped up to the one place where no other begins. -/
theorem blanksAndComments_ok (h : ∃ stop, Filler s.input s.index stop) : ∃ t,
    rules.parser .blanksAndComments s = .ok () t ∧ t.input = s.input ∧ s.index < t.index ∧
      Skipped s.input s.index t.index ∧
      ∀ stop, Skipped s.input s.index stop → stop = t.index := by
  obtain ⟨stop, hfiller⟩ := h
  obtain ⟨last, hlast⟩ := exists_skipped hfiller
  have hp : (rules.parser .blanksAndComments).HistoryFree := rules.parser_withPast _
  obtain ⟨t, ht, rfl⟩ := hp.yields_iff.mpr (rules.blanksAndComments_yields_iff.mpr hlast)
  have hinput : t.input = s.input := ((rules.parser_backtracks _).ok ht).input
  exact ⟨t, ht, hinput, hlast.lt, hlast, fun _ h => h.unique hlast⟩

theorem blanksAndComments_fail (h : ¬ ∃ stop, Filler s.input s.index stop) :
    rules.parser .blanksAndComments s =
      .fail .recoverable (s.expect ["whitespaces", "line comment", "block comment"]) := by
  rcases rules.filler_cases s with ⟨t, -, hfiller⟩ | ⟨-, hfail⟩
  · exact absurd ⟨_, hfiller⟩ h
  · have hone : rules.parser (.oneOrMore .filler) s = _ := Parser.seqWith_fail hfail
    exact congrArg (Outcome.map fun _ => ()) hone

end

/-! ## Runs in words of a machine -/

section

variable {limit : Nat} {s : State .text}

theorem fillerWithin_eq (hindex : s.index + 2 ≤ limit) (hlength : s.input.length + 2 ≤ limit) :
    Parser.fillerWithin limit s = rules.parser .filler s := by
  have hfits : s.input.length ≤ limit := by omega
  refine Parser.orElse_congr (Parser.orElse_congr ?_ fun t ht => ?_) fun t ht => ?_
  · exact Parser.scanWithin_eq "whitespaces" (blanksWithin?_eq hfits)
  · have hinput : t.input = s.input := ((rules.parser_backtracks _).fail ht).1
    refine Parser.scanWithin_eq "line comment" ?_
    rw [State.input_restore, hinput]
    exact lineCommentWithin?_eq hindex hfits
  · have hinput : t.input = s.input := ((rules.parser_backtracks _).fail ht).1
    refine Parser.scanWithin_eq "block comment" ?_
    rw [State.input_restore, hinput]
    exact blockCommentWithin?_eq hindex hlength

/-- As long as there is room for an opening mark, the same is skipped in words up to a limit. -/
theorem blanksAndCommentsWithin_eq (hindex : s.index + 2 ≤ limit)
    (hlength : s.input.length + 2 ≤ limit) :
    Parser.blanksAndCommentsWithin limit s = rules.parser .blanksAndComments s := by
  have hround (s : State .text) (x : Unit) (t : State .text)
      (hs : s.index + 2 ≤ limit ∧ s.input.length + 2 ≤ limit)
      (ht : rules.parser .filler s = .ok x t) :
      t.index + 2 ≤ limit ∧ t.input.length + 2 ≤ limit := by
    have hinput : t.input = s.input := ((rules.parser_backtracks _).ok ht).input
    have hfiller : (rules.parser .filler).HistoryFree := rules.parser_withPast _
    have hpiece := rules.filler_yields_iff.mp (hfiller.yields_iff.mp ⟨t, ht, rfl⟩)
    have hle := hpiece.le_length
    rw [hinput]
    omega
  have hfirst := rules.fillerWithin_eq hindex hlength
  have hseq : Parser.seqWith List.cons (Parser.fillerWithin limit)
      (Parser.many (Parser.fillerWithin limit)) s = rules.parser (.oneOrMore .filler) s :=
    Parser.seqWith_congr hfirst fun x t ht =>
      Parser.many_congr (fun s hs => rules.fillerWithin_eq hs.1 hs.2) hround
        (hround s x t ⟨hindex, hlength⟩ ht)
  exact congrArg (Outcome.map fun _ => ()) hseq

/-- Where there is none, that is a fault. -/
theorem blanksAndCommentsWithin_eq_fault (hindex : limit < s.index + 2)
    (hlength : s.input.length + 2 ≤ limit) :
    Parser.blanksAndCommentsWithin limit s = .fault .outOfRange := by
  have hpast : s.input.length < s.index := by omega
  have hblanks : Parser.scanWithin (blanksWithin? limit) "whitespaces" s = _ :=
    (Parser.scanWithin_eq "whitespaces" (blanksWithin?_eq (by omega))).trans
      (Parser.scan_pattern_fail "whitespaces" (endAt_of_length_lt Pattern.blanks hpast))
  have hline : lineCommentWithin? limit ['/', '/'] s.input s.index = none := by
    rw [lineCommentWithin?, literalWithin?_eq_none hindex]
  have hfault : Parser.fillerWithin limit s = .fault .outOfRange :=
    Parser.orElse_fault ((Parser.orElse_recoverable hblanks).trans
      (Parser.scanWithin_eq_fault "line comment" hline))
  have hseq : Parser.seqWith List.cons (Parser.fillerWithin limit)
      (Parser.many (Parser.fillerWithin limit)) s = _ := Parser.seqWith_fault hfault
  exact congrArg (Outcome.map fun _ => ()) hseq

end

/-- **What is skipped between words.** In words up to a limit that leave room for an opening mark at the
index and for a closing one at the end of the text, a comment between marks is found where the
opening mark stands and, behind it, a closing mark somewhere, and it ends behind the first of those.
White space and comments are skipped wherever a piece of them begins, up to the only place to which
pieces lead one after another and where no other begins; so an opening mark without a closing one is
left. Where no piece begins nothing is taken, and white space and both kinds of comments are expected.
At an index without that room looking for an opening mark is a fault. -/
theorem blanksAndComments_skips (limit : Nat) :
    (∀ (opening closing text : List Char) (start : Nat), closing ≠ [] →
      text.length + closing.length ≤ limit →
      (start + opening.length ≤ limit →
        blockCommentWithin? limit opening closing text start =
          some ((Pattern.blockComment opening closing).endAt text start) ∧
        ((∃ stop, (Pattern.blockComment opening closing).endAt text start = some stop) ↔
          opening <+: text.drop start ∧
            ∃ k, start + opening.length ≤ k ∧ closing <+: text.drop k) ∧
        ∀ stop, (Pattern.blockComment opening closing).endAt text start = some stop →
          ∃ k, IsLeast {k | start + opening.length ≤ k ∧ closing <+: text.drop k} k ∧
            k + closing.length = stop) ∧
      (limit < start + opening.length →
        blockCommentWithin? limit opening closing text start = none)) ∧
    ∀ s : State .text, s.input.length + 2 ≤ limit →
      (s.index + 2 ≤ limit →
        Parser.blanksAndCommentsWithin limit s = rules.parser .blanksAndComments s ∧
        ((∃ stop, Filler s.input s.index stop) → ∃ t,
          rules.parser .blanksAndComments s = .ok () t ∧ t.input = s.input ∧ s.index < t.index ∧
            Skipped s.input s.index t.index ∧
            ∀ stop, Skipped s.input s.index stop → stop = t.index) ∧
        ((¬ ∃ stop, Filler s.input s.index stop) → rules.parser .blanksAndComments s =
          .fail .recoverable (s.expect ["whitespaces", "line comment", "block comment"]))) ∧
      (limit < s.index + 2 →
        Parser.blanksAndCommentsWithin limit s = .fault .outOfRange) := by
  refine ⟨fun opening closing text start hclosing hlimit => ⟨fun hstart => ⟨?_, ?_, ?_⟩, ?_⟩,
    fun s hlength => ⟨fun hindex => ⟨?_, ?_, ?_⟩, ?_⟩⟩
  · exact blockCommentWithin?_eq hstart hlimit
  · exact exists_endAt_blockComment_iff hclosing
  · exact fun stop hstop => ((endAt_blockComment_iff hclosing).mp hstop).closed
  · exact blockCommentWithin?_eq_none
  · exact rules.blanksAndCommentsWithin_eq hindex hlength
  · exact rules.blanksAndComments_ok
  · exact rules.blanksAndComments_fail
  · exact fun hindex => blanksAndCommentsWithin_eq_fault hindex hlength

/-- White space and comments, with marks that overlap and one that is not closed. -/
def commentedText : List Char :=
  " //*\n/*/x*/ /*".toList

/-- All of it is skipped but the last two characters, where white space or a comment is missed. -/
theorem commentedText_skipped :
    commentedText.length + 2 ≤ greatestIndex ∧ 12 + 2 ≤ greatestIndex ∧
    blockCommentWithin? greatestIndex ['/', '*'] ['*', '/'] commentedText 5 = some (some 11) ∧
    IsLeast {k | 5 + 2 ≤ k ∧ ['*', '/'] <+: commentedText.drop k} 9 ∧
    (∃ t, Parser.blanksAndCommentsWithin greatestIndex { input := commentedText } = .ok () t ∧
      t.index = 12) ∧
    (Parser.blanksAndCommentsWithin greatestIndex { input := commentedText, index := 12 }).reason? =
      some ⟨12, ["whitespaces", "line comment", "block comment"], none, .unit "/"⟩ := by
  have hlength : commentedText.length + 2 ≤ greatestIndex := by decide
  have hindex : 12 + 2 ≤ greatestIndex := by decide
  have hcomment : (Pattern.blockComment ['/', '*'] ['*', '/']).endAt commentedText 5 = some 11 := by
    decide
  have hblank : Filler commentedText 0 1 := filler_iff.mpr (.inl (by decide))
  have hline : Filler commentedText 1 4 := filler_iff.mpr (.inr (.inl (by decide)))
  have hbreak : Filler commentedText 4 5 := filler_iff.mpr (.inl (by decide))
  have hblock : Filler commentedText 5 11 := filler_iff.mpr (.inr (.inr hcomment))
  have hlast : Filler commentedText 11 12 := filler_iff.mpr (.inl (by decide))
  have hpieces : TransGen (Filler commentedText) 0 12 :=
    .head hblank (.head hline (.head hbreak (.head hblock (.single hlast))))
  have hended : ¬ ∃ stop, Filler commentedText 12 stop := by
    simp only [filler_iff, show Pattern.blanks.endAt commentedText 12 = none by decide,
      show (Pattern.lineComment ['/', '/']).endAt commentedText 12 = none by decide,
      show (Pattern.blockComment ['/', '*'] ['*', '/']).endAt commentedText 12 = none by decide,
      reduceCtorEq, or_self, exists_false, not_false_eq_true]
  obtain ⟨hmarks, hruns⟩ := blanksAndComments_skips nestingRules greatestIndex
  obtain ⟨hfits, -⟩ := hmarks ['/', '*'] ['*', '/'] commentedText 5 (List.cons_ne_nil _ _) hlength
  obtain ⟨hwithin, -, hclosed⟩ := hfits (by decide)
  obtain ⟨k, hk, hstop⟩ := hclosed 11 hcomment
  obtain rfl : k = 9 := Nat.add_right_cancel hstop
  obtain ⟨hall, hskips, -⟩ := (hruns { input := commentedText } hlength).1 (by decide)
  obtain ⟨t, ht, -, -, -, honly⟩ := hskips ⟨1, hblank⟩
  obtain ⟨hrest, -, hmisses⟩ := (hruns { input := commentedText, index := 12 } hlength).1 hindex
  refine ⟨hlength, hindex, by rw [hwithin, hcomment], hk,
    ⟨t, hall.trans ht, (honly 12 ⟨hpieces, hended⟩).symm⟩, ?_⟩
  rw [hrest, hmisses hended]
  decide

/-- At the greatest index there is no room for a mark. And what is missed is not on record where
something further on is. -/
theorem letters_unskipped :
    blockCommentWithin? greatestIndex ['/', '*'] ['*', '/'] ['a', 'b'] greatestIndex = none ∧
    Parser.blanksAndCommentsWithin greatestIndex
      { input := ['a', 'b'], index := greatestIndex } = .fault .outOfRange ∧
    (nestingRules.parser .blanksAndComments
      { input := ['a', 'b'], failure := some ⟨1, ["x"], none, .unit "b"⟩ }).reason? =
        some ⟨1, ["x"], none, .unit "b"⟩ := by
  refine ⟨blockCommentWithin?_eq_none (by decide), ?_, by decide +kernel⟩
  exact blanksAndCommentsWithin_eq_fault (by decide) (by decide)

end Rules

end Descent
