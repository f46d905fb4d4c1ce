import Descent.Proofs.Contract
import Descent.Proofs.History
import Descent.Proofs.Tokenizing

/-!
Tokens tile the text.

A lexer finds pieces of the text one after another, and between them lies nothing but what the
delimiter takes (`Tiles`). What carries this through the loop is the gap in front of the next token:
it has been skipped, or there is none (`Parser.SkipsTo`). As every token takes something, the loop
comes to an end; it ends where the tokenizer finds no more, unless the delimiter commits
(`Rules.lexer_tiles`).
-/

namespace Descent

/-! ## Tiles -/

/-- A token that is a stretch of a text, and not an empty one. -/
structure Token.IsPieceOf (token : Token) (text : List Char) : Prop where
  start_lt_stop : token.start < token.stop
  stop_le : token.stop ≤ text.length
  text_eq : token.text.toList = (text.drop token.start).take (token.stop - token.start)

/-- Pieces of a text one after another from one index to another, with a gap before, between and
after them. -/
inductive Tiles (gap : Nat → Nat → Prop) (text : List Char) : Nat → List Token → Nat → Prop where
  | nil {i stop : Nat} (skipped : gap i stop) : Tiles gap text i [] stop
  | cons {i stop : Nat} {token : Token} {tokens : List Token} (skipped : gap i token.start)
      (piece : token.IsPieceOf text) (rest : Tiles gap text token.stop tokens stop) :
      Tiles gap text i (token :: tokens) stop

/-- The stretches before, between and after tokens, from one index to another. -/
def Token.gaps : Nat → List Token → Nat → List (Nat × Nat)
  | i, [], stop => [(i, stop)]
  | i, token :: tokens, stop => (i, token.start) :: gaps token.stop tokens stop

namespace Tiles

variable {gap : Nat → Nat → Prop} {text : List Char} {i stop : Nat} {tokens : List Token}

theorem pieces (h : Tiles gap text i tokens stop) :
    ∀ token ∈ tokens, token.IsPieceOf text := by
  induction h with
  | nil => exact nofun
  | cons _ piece _ ih => exact List.forall_mem_cons.mpr ⟨piece, ih⟩

theorem gaps (h : Tiles gap text i tokens stop) :
    ∀ stretch ∈ Token.gaps i tokens stop, gap stretch.1 stretch.2 := by
  induction h with
  | nil skipped => exact List.forall_mem_singleton.mpr skipped
  | cons skipped _ _ ih => exact List.forall_mem_cons.mpr ⟨skipped, ih⟩

theorem le (hgap : ∀ i j, gap i j → i ≤ j) (h : Tiles gap text i tokens stop) : i ≤ stop := by
  induction h with
  | nil skipped => exact hgap _ _ skipped
  | cons skipped piece _ ih =>
    have hstart := hgap _ _ skipped
    have hpiece := piece.start_lt_stop
    omega

theorem bounds (hgap : ∀ i j, gap i j → i ≤ j) (h : Tiles gap text i tokens stop) :
    ∀ token ∈ tokens, i ≤ token.start ∧ token.stop ≤ stop := by
  induction h with
  | nil => exact nofun
  | cons skipped piece rest ih =>
    have hstart := hgap _ _ skipped
    have hpiece := piece.start_lt_stop
    refine List.forall_mem_cons.mpr ⟨⟨hstart, rest.le hgap⟩, fun token htoken => ?_⟩
    obtain ⟨hle, hstop⟩ := ih token htoken
    exact ⟨by omega, hstop⟩

theorem pairwise (hgap : ∀ i j, gap i j → i ≤ j) (h : Tiles gap text i tokens stop) :
    tokens.Pairwise fun first second => first.stop ≤ second.start := by
  induction h with
  | nil => exact .nil
  | cons _ _ rest ih =>
    exact List.pairwise_cons.mpr ⟨fun token htoken => (rest.bounds hgap token htoken).1, ih⟩

end Tiles

namespace Parser

/-! ## What is skipped -/

/-- From one index to another a parser takes all; or it fails, alternatives may be tried, and there
is nothing to take. -/
def SkipsTo (d : Parser .text Unit) (text : List Char) (i j : Nat) : Prop :=
  (∃ t, d { input := text, index := i } = .ok () t ∧ t.index = j) ∨
    (i = j ∧ ∃ t, d { input := text, index := i } = .fail .recoverable t)

/-- A parser that is nowhere in a text at fault. -/
def FaultlessOn {α : Type} (text : List Char) (p : Parser .text α) : Prop :=
  ∀ index ≤ text.length, ∀ f, p { input := text, index } ≠ .fault f

variable {p : Parser .text Token} {d : Parser .text Unit} {text : List Char} {faulty : Prop}

theorem SkipsTo.le (hb : d.Backtracks) {i j : Nat} (h : d.SkipsTo text i j) : i ≤ j := by
  rcases h with ⟨t, ht, rfl⟩ | ⟨rfl, -⟩
  · exact (hb.ok ht).index_le
  · exact Nat.le_refl i

theorem skipsTo_of_optional_ok (hd : d.HistoryFree) {s t : State .text} {x : Option Unit}
    (h : optional d s = .ok x t) : d.SkipsTo s.input s.index t.index := by
  rcases optional_cases d s with ⟨y, u, hds, h'⟩ | ⟨u, hds, h'⟩ | ⟨u, -, h'⟩ | ⟨g, -, h'⟩ <;>
    rw [h'] at h <;> cases h
  · obtain ⟨u₀, hu₀, rfl⟩ := hd.bare_ok hds
    exact .inl ⟨u₀, hu₀, rfl⟩
  · obtain ⟨u₀, hu₀, -⟩ := hd.bare_fail hds
    exact .inr ⟨rfl, u₀, hu₀⟩

theorem committed_of_optional_fail (hd : d.HistoryFree) {s t : State .text} {severity : Severity}
    (h : optional d s = .fail severity t) :
    severity = .committed ∧
      ∃ u, d { input := s.input, index := s.index } = .fail .committed u := by
  rcases optional_cases d s with ⟨y, u, -, h'⟩ | ⟨u, -, h'⟩ | ⟨u, hds, h'⟩ | ⟨g, -, h'⟩ <;>
    rw [h'] at h <;> cases h
  obtain ⟨u₀, hu₀, -⟩ := hd.bare_fail hds
  exact ⟨rfl, u₀, hu₀⟩

theorem fault_of_optional_fault {s : State .text} {f : Fault}
    (h : optional d s = .fault f) : d s = .fault f := by
  rcases optional_cases d s with ⟨y, u, -, h'⟩ | ⟨u, -, h'⟩ | ⟨u, -, h'⟩ | ⟨g, hds, h'⟩ <;>
    rw [h'] at h <;> cases h
  exact hds

/-! ## The loop -/

/-- How a lexer that begins at an index ends: with tokens that tile the text up to where there are no
more of them, or committed because the delimiter is. It is at fault only if it may be. -/
inductive IsTiling (p : Parser .text Token) (d : Parser .text Unit) (faulty : Prop)
    (text : List Char) (i : Nat) : Outcome .text (List Token) → Prop where
  | ok {tokens : List Token} {t : State .text}
      (tiles : Tiles (d.SkipsTo text) text i tokens t.index)
      (ended : ∃ u, p { input := text, index := t.index } = .fail .recoverable u) :
      IsTiling p d faulty text i (.ok tokens t)
  | fail {t : State .text} {j : Nat} (le : i ≤ j) (le_length : j ≤ text.length)
      (commits : ∃ u, d { input := text, index := j } = .fail .committed u) :
      IsTiling p d faulty text i (.fail .committed t)
  | fault {f : Fault} (h : faulty) : IsTiling p d faulty text i (.fault f)

/-- A token in front of tiles. -/
theorem IsTiling.cons {outcome : Outcome .text (List Token)} {token : Token} {i : Nat}
    (h : IsTiling p d faulty text token.stop outcome) (hd : d.Backtracks)
    (skipped : d.SkipsTo text i token.start) (piece : token.IsPieceOf text) :
    IsTiling p d faulty text i (outcome.map (token :: ·)) := by
  have hstart := skipped.le hd
  have hpiece := piece.start_lt_stop
  cases h with
  | ok tiles ended => exact .ok (.cons skipped piece tiles) ended
  | fail le le_length commits => exact .fail (by omega) le_length commits
  | fault h => exact .fault h

theorem IsTiling.backTo {outcome : Outcome .text (List Token)} {i : Nat}
    (h : IsTiling p d faulty text i outcome) (index : Nat) :
    IsTiling p d faulty text i (outcome.backTo index) := by
  cases h with
  | ok tiles ended => exact .ok tiles ended
  | fail le le_length commits => exact .fail le le_length commits
  | fault h => exact .fault h

/-- What a lexer over a text is made of: a tokenizer and a delimiter, which are at fault only if they
may be. -/
structure LexerParts (faulty : Prop) (text : List Char) (p : Parser .text Token)
    (d : Parser .text Unit) : Prop where
  tokenizes : p.Tokenizes faulty text
  cutsOut : p.CutsOut
  backtracks : p.Backtracks
  historyFree : p.HistoryFree
  delimiter_backtracks : d.Backtracks
  delimiter_historyFree : d.HistoryFree
  delimiter_fault : ∀ s f, s.input = text → s.index ≤ text.length → d s = .fault f → faulty

namespace LexerParts

variable (parts : LexerParts faulty text p d) {s t : State .text}

include parts

/-- A token that has been found is a piece of the text. -/
theorem isPieceOf {token : Token} (hs : s.input = text) (hi : s.index ≤ text.length)
    (h : p s = .ok token t) :
    token.IsPieceOf text ∧ token.start = s.index ∧ token.stop = t.index := by
  obtain ⟨hstart, hstop, htext⟩ := parts.cutsOut s token t h
  have hlt := parts.tokenizes.index_lt h hs hi
  have ht := parts.backtracks.ok h
  have hlength : t.index ≤ t.input.length := ht.within (hs ▸ hi)
  rw [ht.input, hs] at hlength
  refine ⟨⟨hstart ▸ hstop ▸ hlt, hstop ▸ hlength, ?_⟩, hstart, hstop⟩
  rw [State.slice?, if_pos ⟨Nat.le_of_lt hlt, ht.input ▸ hs ▸ hlength⟩, ht.input, hs] at htext
  rw [hstart, hstop]
  exact (Option.some.inj htext).symm

/-- A delimiter or none leads from a place in the text to one further on. -/
theorem optional_ok {x : Option Unit} (hs : s.input = text) (hi : s.index ≤ text.length)
    (h : optional d s = .ok x t) :
    t.input = text ∧ t.index ≤ text.length ∧ d.SkipsTo text s.index t.index := by
  have ht := parts.delimiter_backtracks.optional.ok h
  have hwithin : t.index ≤ t.input.length := ht.within (hs ▸ hi)
  rw [ht.input, hs] at hwithin
  exact ⟨ht.input.trans hs, hwithin, hs ▸ skipsTo_of_optional_ok parts.delimiter_historyFree h⟩

/-- The invariant of the loop is that the gap in front of it has been skipped. Each round takes a
token, so there are enough rounds to come to an end. -/
theorem iterate (n : Nat) (s : State .text) (hs : s.input = text) (hi : s.index ≤ text.length)
    (hn : text.length - s.index < n) {i : Nat} (hskipped : d.SkipsTo text i s.index) :
    IsTiling p d faulty text i
      (Parser.iterate (seqWith (fun x _ => x) p (optional d)) n s) := by
  induction n generalizing s i with
  | zero => omega
  | succ n ih =>
    cases h : p s with
    | ok token t =>
      obtain ⟨hpiece, hstart, hstop⟩ := parts.isPieceOf hs hi h
      have hlt := hpiece.start_lt_stop
      have hlength : t.index ≤ text.length := hstop ▸ hpiece.stop_le
      have ht : t.input = text := (parts.backtracks.ok h).input.trans hs
      cases h' : optional d t with
      | ok x u =>
        obtain ⟨hu, hwithin, hgap⟩ := parts.optional_ok ht hlength h'
        have hle := hgap.le parts.delimiter_backtracks
        rw [iterate_moved (seqWith_ok_ok h h') (by omega)]
        exact (ih u hu hwithin (by omega) (hstop ▸ hgap)).cons parts.delimiter_backtracks
          (hstart ▸ hskipped) hpiece
      | fail severity u =>
        obtain ⟨rfl, hcommits⟩ := committed_of_optional_fail parts.delimiter_historyFree h'
        have hle := hskipped.le parts.delimiter_backtracks
        rw [iterate_committed (seqWith_ok_fail h h')]
        exact .fail (by omega) hlength (ht ▸ hcommits)
      | fault g =>
        rw [iterate_fault (seqWith_ok_fault h h')]
        exact .fault (parts.delimiter_fault t g ht hlength (fault_of_optional_fault h'))
    | fail severity t =>
      obtain ⟨rfl, -⟩ := parts.tokenizes.recoverable h hs hi
      obtain ⟨t₀, ht₀, -⟩ := parts.historyFree.bare_fail h
      rw [iterate_recoverable (seqWith_fail h)]
      exact .ok (.nil hskipped) ⟨t₀, hs ▸ ht₀⟩
    | fault g =>
      rw [iterate_fault (seqWith_fault h)]
      exact .fault (parts.tokenizes.fault h hs hi)

theorem many (hs : s.input = text) (hi : s.index ≤ text.length) {i : Nat}
    (hskipped : d.SkipsTo text i s.index) :
    IsTiling p d faulty text i (Parser.many (seqWith (fun x _ => x) p (optional d)) s) := by
  rw [many_apply]
  refine (parts.iterate _ s hs hi ?_ hskipped).backTo s.index
  rw [hs]
  omega

/-- The gap in front of the first token is skipped before the loop. -/
theorem lexer (hs : s.input = text) (hi : s.index ≤ text.length) :
    IsTiling p d faulty text s.index (seqWith (fun _ y => y) (optional d)
      (Parser.many (seqWith (fun x _ => x) p (optional d))) s) := by
  cases h : optional d s with
  | ok x t =>
    obtain ⟨ht, hwithin, hgap⟩ := parts.optional_ok hs hi h
    rw [seqWith_of_ok h, Outcome.map_self]
    exact (parts.many ht hwithin hgap).backTo s.index
  | fail severity t =>
    obtain ⟨rfl, hcommits⟩ := committed_of_optional_fail parts.delimiter_historyFree h
    rw [seqWith_fail h]
    exact .fail (Nat.le_refl _) hi (hs ▸ hcommits)
  | fault g =>
    rw [seqWith_fault h]
    exact .fault (parts.delimiter_fault s g hs hi (fault_of_optional_fault h))

end LexerParts

end Parser

/-! ## Grammars -/

variable {S : Scope}

/-- The parts of a lexer. It is at fault only where its delimiter is or a scanner of words. -/
theorem Grammar.IsTokenizer.lexerParts (rules : Rules S) {tokenizer : Grammar S .text Token}
    (htokenizer : tokenizer.IsTokenizer) (delimiter : Grammar S .text Unit) {text : List Char}
    {faulty : Prop}
    (hwords : ∀ words ∈ tokenizer.wordScanners, ∀ s f, s.input = text → s.index ≤ text.length →
      rules.parser words s = .fault f → faulty)
    (hdelimiter : ∀ s f, s.input = text → s.index ≤ text.length →
      rules.parser delimiter s = .fault f → faulty) :
    Parser.LexerParts faulty text (rules.parser tokenizer) (rules.parser delimiter) where
  tokenizes := htokenizer.tokenizes (rules.bindings.resolver_backtracks rules.depth) hwords
  cutsOut := htokenizer.cutsOut (rules.bindings.resolver_backtracks rules.depth)
  backtracks := rules.parser_backtracks tokenizer
  historyFree := rules.parser_withPast tokenizer
  delimiter_backtracks := rules.parser_backtracks delimiter
  delimiter_historyFree := rules.parser_withPast delimiter
  delimiter_fault := hdelimiter

/-- The tokens that a lexer has found tile the text, whether or not it could have been at fault. -/
theorem Rules.tiles_of_lexer_ok (rules : Rules S) {tokenizer : Grammar S .text Token}
    (htokenizer : tokenizer.IsTokenizer) (delimiter : Grammar S .text Unit) {s t : State .text}
    (hs : s.index ≤ s.input.length) {tokens : List Token}
    (h : rules.parser (.lexer tokenizer delimiter) s = .ok tokens t) :
    Tiles ((rules.parser delimiter).SkipsTo s.input) s.input s.index tokens t.index := by
  have parts : Parser.LexerParts True s.input (rules.parser tokenizer) (rules.parser delimiter) :=
    htokenizer.lexerParts rules delimiter (fun _ _ _ _ _ _ _ => trivial)
      (fun _ _ _ _ _ => trivial)
  have hlexer : Parser.IsTiling _ _ _ _ _ (rules.parser (.lexer tokenizer delimiter) s) :=
    parts.lexer rfl hs
  rw [h] at hlexer
  cases hlexer with
  | ok tiles _ => exact tiles

/-- A lexer fails only where its delimiter commits, whether or not it could have been at fault. -/
theorem Rules.commits_of_lexer_fail (rules : Rules S) {tokenizer : Grammar S .text Token}
    (htokenizer : tokenizer.IsTokenizer) (delimiter : Grammar S .text Unit) {s t : State .text}
    (hs : s.index ≤ s.input.length) {severity : Severity}
    (h : rules.parser (.lexer tokenizer delimiter) s = .fail severity t) :
    ∃ i, s.index ≤ i ∧ i ≤ s.input.length ∧
      ∃ u, rules.parser delimiter { input := s.input, index := i } = .fail .committed u := by
  have parts : Parser.LexerParts True s.input (rules.parser tokenizer) (rules.parser delimiter) :=
    htokenizer.lexerParts rules delimiter (fun _ _ _ _ _ _ _ => trivial)
      (fun _ _ _ _ _ => trivial)
  have hlexer : Parser.IsTiling _ _ _ _ _ (rules.parser (.lexer tokenizer delimiter) s) :=
    parts.lexer rfl hs
  rw [h] at hlexer
  cases hlexer with
  | fail le le_length commits => exact ⟨_, le, le_length, commits⟩

theorem Parser.FaultlessOn.ne_fault {α : Type} {p : Parser .text α} {text : List Char}
    (hp : p.HistoryFree) (h : p.FaultlessOn text) (s : State .text) (f : Fault)
    (hs : s.input = text) (hi : s.index ≤ text.length) : p s ≠ .fault f := by
  intro hfault
  refine h s.index hi f ?_
  rw [← hs]
  exact hp.bare_fault hfault

/-- **The tokens tile the text.** A lexer whose scanners of words and whose delimiter are nowhere at
fault is not at fault either, and fails only if the delimiter commits. The tokens it finds are pieces
of the text, none of them empty, in order and without overlap, from where it begins to where it
ends. Before, between and after them is nothing, or just what the delimiter takes there; and where
the lexer ends the tokenizer fails. -/
theorem Rules.lexer_tiles (rules : Rules S) {tokenizer : Grammar S .text Token}
    (htokenizer : tokenizer.IsTokenizer) (delimiter : Grammar S .text Unit) (s : State .text)
    (hs : s.index ≤ s.input.length)
    (hwords : ∀ words ∈ tokenizer.wordScanners, (rules.parser words).FaultlessOn s.input)
    (hdelimiter : (rules.parser delimiter).FaultlessOn s.input) :
    (∀ f, rules.parser (.lexer tokenizer delimiter) s ≠ .fault f) ∧
    (∀ severity t, rules.parser (.lexer tokenizer delimiter) s = .fail severity t →
      severity = .committed ∧ ∃ i, s.index ≤ i ∧ i ≤ s.input.length ∧
        ∃ u, rules.parser delimiter { input := s.input, index := i } = .fail .committed u) ∧
    ∀ tokens t, rules.parser (.lexer tokenizer delimiter) s = .ok tokens t →
      t.index ≤ s.input.length ∧
      (∀ token ∈ tokens,
        token.IsPieceOf s.input ∧ s.index ≤ token.start ∧ token.stop ≤ t.index) ∧
      tokens.Pairwise (fun first second => first.stop ≤ second.start) ∧
      (∀ gap ∈ Token.gaps s.index tokens t.index, gap.1 = gap.2 ∨
        ∃ u, rules.parser delimiter { input := s.input, index := gap.1 } = .ok () u ∧
          u.index = gap.2) ∧
      ∃ u, rules.parser tokenizer { input := s.input, index := t.index } =
        .fail .recoverable u := by
  have parts : Parser.LexerParts False s.input (rules.parser tokenizer) (rules.parser delimiter) :=
    htokenizer.lexerParts rules delimiter
      (fun words hmem => (hwords words hmem).ne_fault (rules.parser_withPast words))
      (hdelimiter.ne_fault (rules.parser_withPast delimiter))
  have hlexer : Parser.IsTiling _ _ _ _ _ (rules.parser (.lexer tokenizer delimiter) s) :=
    parts.lexer rfl hs
  have hle : ∀ i j, (rules.parser delimiter).SkipsTo s.input i j → i ≤ j :=
    fun _ _ => Parser.SkipsTo.le parts.delimiter_backtracks
  refine ⟨fun f hf => ?_, fun severity t ht => ?_, fun tokens t ht => ?_⟩
  · rw [hf] at hlexer
    cases hlexer with
    | fault h => exact h
  · rw [ht] at hlexer
    cases hlexer with
    | fail le le_length commits => exact ⟨rfl, _, le, le_length, commits⟩
  · have hend := (rules.parser_backtracks _).ok ht
    rw [ht] at hlexer
    cases hlexer with
    | ok tiles ended =>
      refine ⟨hend.input ▸ hend.within hs, fun token htoken => ?_, tiles.pairwise hle,
        fun gap hgap => ?_, ended⟩
      · exact ⟨tiles.pieces token htoken, tiles.bounds hle token htoken⟩
      · rcases tiles.gaps gap hgap with hskipped | ⟨hempty, -⟩
        · exact .inr hskipped
        · exact .inl hempty

/-! ## Parentheses and names

What `unclosed` holds from its second character on: a blank, two parentheses, a name and a blank. -/

section

/-- A scanner of the library is nowhere at fault. -/
theorem Grammar.IsScanner.faultlessOn {α : Type} {matcher : List Char → Nat → Option (Nat × α)}
    {name : String} (h : (scan (S := S) matcher name).IsScanner) (text : List Char) :
    (Parser.scan matcher name).FaultlessOn text := by
  intro index hindex f hfault
  simp only [Parser.scan] at hfault
  split at hfault
  · rename_i hmatch
    rw [if_pos (h.bounds hindex hmatch)] at hfault
    cases hfault
  · cases hfault

/-- The numbers and the lexemes of a vocabulary. -/
def lexemes : Grammar nestingScope .text Token :=
  .orElse parentheses.tokenizer .longTokenizer

/-- With what a success ended. -/
def Outcome.value? {a : Alphabet} {α : Type} : Outcome a α → Option (α × Nat)
  | ok x t => some (x, t.index)
  | _ => none

theorem Outcome.exists_of_value? {a : Alphabet} {α : Type} {outcome : Outcome a α} {x : α} {n : Nat}
    (h : outcome.value? = some (x, n)) : ∃ t, outcome = .ok x t ∧ t.index = n := by
  unfold value? at h
  split at h
  · cases h; exact ⟨_, rfl, rfl⟩
  · cases h

/-- Three tokens and what lies around them. -/
theorem lexemes_tile :
    lexemes.IsTokenizer ∧ unclosed.index ≤ unclosed.input.length ∧
    (∀ words ∈ lexemes.wordScanners, (nestingRules.parser words).FaultlessOn unclosed.input) ∧
    (nestingRules.parser .blanks).FaultlessOn unclosed.input ∧
    ∃ tokens t, nestingRules.parser (.lexer lexemes .blanks) unclosed = .ok tokens t ∧
      Token.gaps unclosed.index tokens t.index = [(1, 2), (3, 3), (4, 4), (5, 6)] ∧
      (∀ token ∈ tokens, token.IsPieceOf unclosed.input) ∧
      ∃ u, nestingRules.parser lexemes { input := unclosed.input, index := t.index } =
        .fail .recoverable u := by
  have htokenizer : lexemes.IsTokenizer := .orElse (.registry _) .long
  have hindex : unclosed.index ≤ unclosed.input.length := by decide
  have hwords : ∀ words ∈ lexemes.wordScanners,
      (nestingRules.parser words).FaultlessOn unclosed.input := by
    intro words hmem
    have hwords : words = .identifier := List.mem_singleton.mp hmem
    subst hwords
    exact Grammar.IsScanner.faultlessOn (S := nestingScope) (.pattern _ .identifier) _
  have hblanks : (nestingRules.parser .blanks).FaultlessOn unclosed.input :=
    Grammar.IsScanner.faultlessOn (S := nestingScope) (.pattern _ .blanks) _
  have hvalue : (nestingRules.parser (.lexer lexemes .blanks) unclosed).value? =
      some ([⟨2, 3, .reserved "(", "("⟩, ⟨3, 4, .reserved "(", "("⟩, ⟨4, 5, .identifier "a", "a"⟩],
        6) := by
    decide +kernel
  obtain ⟨t, ht, hstop⟩ := Outcome.exists_of_value? hvalue
  obtain ⟨-, hpieces, -, -, hended⟩ :=
    (nestingRules.lexer_tiles htokenizer .blanks unclosed hindex hwords hblanks).2.2 _ t ht
  refine ⟨htokenizer, hindex, hwords, hblanks, _, t, ht, ?_, fun token h => (hpieces token h).1,
    hended⟩
  rw [hstop]
  decide

end

end Descent
