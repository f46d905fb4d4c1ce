import Descent.Proofs.Reading
import Descent.Proofs.Stages

/-!
Printing tokens and finding them again.

A token is read from its own text as it was from the text it was found in (`Token.ReadsAlone`), since
readers that are firm need nothing but what they take. So if the texts of tokens are set one after
another with a blank between any two, the lexer finds them again: the blank ends each of them, and is
all that the delimiter skips (`Lexicon.lexer_spaced`).
-/

namespace Descent

/-! ## Texts of tokens with a blank between them -/

/-- The texts of tokens, with one blank between any two. -/
def Token.spaced (tokens : List Token) : String :=
  " ".intercalate (tokens.map (·.text))

/-- Read by itself, the text of the token is the token, all of it. -/
def Token.ReadsAlone (token : Token) (read : Reader) : Prop :=
  read token.text.toList = some (token.text.length, token.kind)

namespace Token

variable {read : Reader} {token : Token} {tokens : List Token}

/-- What follows a token if the given ones come after it. -/
def spacedAfter : List Token → List Char
  | [] => []
  | next :: rest => ' ' :: (spaced (next :: rest)).toList

theorem spaced_cons (token : Token) (tokens : List Token) :
    (spaced (token :: tokens)).toList = token.text.toList ++ spacedAfter tokens := by
  cases tokens with
  | nil => simp [spaced, spacedAfter]
  | cons next rest =>
    simp only [spaced, spacedAfter, String.toList_intercalate, List.map_cons,
      List.intercalate_cons_cons, List.append_assoc]
    rfl

theorem spacedAfter_breaks (tokens : List Token) : Text.Breaks (spacedAfter tokens) := by
  cases tokens with
  | nil => exact nofun
  | cons next rest => rintro c ⟨⟩; rfl

section

variable (hfirm : Firm Prod.fst read) (hadvances : read.Advances)

include hfirm hadvances

/-- A token that is read by itself is not empty, and does not begin with a blank. -/
theorem ReadsAlone.exists_cons (h : token.ReadsAlone read) :
    ∃ c rest, token.text.toList = c :: rest ∧ Text.isBlank c = false := by
  unfold ReadsAlone at h
  have hpos := hadvances _ _ _ h
  cases htext : token.text.toList with
  | nil =>
    rw [← String.length_toList, htext] at hpos
    exact absurd hpos (Nat.lt_irrefl 0)
  | cons c rest =>
    refine ⟨c, rest, rfl, Bool.eq_false_iff.mpr fun hblank => ?_⟩
    -- a reader that found something behind a blank would have found it in front of it
    have hbreaks : Text.Breaks (c :: rest) := by
      rintro _ ⟨⟩
      exact hblank
    have hends := hfirm.ends [] hbreaks
    rw [List.nil_append, ← htext, h] at hends
    have hzero := hfirm.fits hends.symm
    dsimp only [List.length_nil] at hzero
    omega

variable (halone : ∀ token ∈ tokens, token.ReadsAlone read)

include halone

/-- No blank is in front of the first token. -/
theorem blanks_spaced : Pattern.blanks (spaced tokens).toList = none := by
  cases tokens with
  | nil => rfl
  | cons token rest =>
    obtain ⟨c, text, htext, hc⟩ :=
      (halone token (.head _)).exists_cons hfirm hadvances
    rw [spaced_cons, htext, List.cons_append, Pattern.blanks, Pattern.oneOrMore,
      List.takeWhile_cons_of_neg (ne_true_of_eq_false hc)]
    rfl

/-- Behind a token the delimiter skips to the next. -/
theorem drop_spacedAfter :
    (spacedAfter tokens).drop ((Pattern.blanks (spacedAfter tokens)).getD 0) =
      (spaced tokens).toList := by
  cases tokens with
  | nil => rfl
  | cons token rest =>
    obtain ⟨c, text, htext, hc⟩ :=
      (halone token (.head _)).exists_cons hfirm hadvances
    have hone : Pattern.blanks (spacedAfter (token :: rest)) = some 1 := by
      rw [spacedAfter, spaced_cons, htext, List.cons_append, Pattern.blanks, Pattern.oneOrMore,
        List.takeWhile_cons_of_pos rfl, List.takeWhile_cons_of_neg (ne_true_of_eq_false hc)]
      rfl
    rw [hone]
    rfl

end

end Token

/-! ## The lexer finds them again -/

namespace Parser

/-- One or none of what a pattern takes. -/
theorem Finds.optional {d : Parser .text Unit} {pattern : Pattern} (hd : d.Finds pattern)
    (hb : d.Backtracks) {s : State .text} (hs : s.index ≤ s.input.length) :
    ∃ x t, Parser.optional d s = .ok x t ∧ s.Follows t ∧
      t.rest = s.rest.drop ((pattern s.rest).getD 0) := by
  rcases hd s hs with ⟨n, t, hn, ht, hinput, hindex⟩ | ⟨t, hnone, ht⟩
  · refine ⟨_, t, optional_ok ht, hb.ok ht, ?_⟩
    rw [State.rest_of_moved hinput hindex, hn, Option.getD_some]
  · have hinput := (hb.fail ht).1
    refine ⟨_, _, optional_recoverable ht, .of_eq hinput rfl, ?_⟩
    rw [State.rest_restore hinput, hnone, Option.getD_none, List.drop_zero]

variable {p : Parser .text Token} {d : Parser .text Unit} {read : Reader}

/-- A token that was found would be found if its text were all there is. -/
theorem Reads.readsAlone (hp : p.Reads read) (hfirm : Firm Prod.fst read) {s t : State .text}
    (hs : s.index ≤ s.input.length) {token : Token} (h : p s = .ok token t) :
    token.ReadsAlone read := by
  rcases hp s hs with ⟨n, kind, u, hread, hu, -, -⟩ | ⟨u, -, hu⟩
  · rw [hu] at h
    cases h
    have hlength : n ≤ s.rest.length := hfirm.fits hread
    have hkept : read (s.rest.take n) = some (n, kind) := hfirm.keeps hread
    rw [Token.ReadsAlone, String.toList_ofList, String.length_ofList, List.length_take,
      Nat.min_eq_left hlength, hkept]
  · rw [hu] at h
    cases h

section

variable (hp : p.Reads read) (hbp : p.Backtracks) (hfirm : Firm Prod.fst read)
  (hadvances : read.Advances) {s : State .text} (hs : s.index ≤ s.input.length)

include hp hbp hfirm hadvances hs

/-- Where nothing is left, no token is found. -/
theorem fail_of_rest_nil (hrest : s.rest = []) :
    ∃ t, p s = .fail .recoverable t ∧ t.input = s.input := by
  rcases hp s hs with ⟨n, kind, t, hread, -, -, -⟩ | ⟨t, -, ht⟩
  · have hpos := hadvances _ _ _ hread
    have hzero := hfirm.fits hread
    rw [hrest] at hzero
    exact absurd (Nat.lt_of_lt_of_le hpos hzero) (Nat.lt_irrefl 0)
  · exact ⟨t, ht, (hbp.fail ht).1⟩

variable (hd : d.Finds Pattern.blanks) (hbd : d.Backtracks) {token : Token} {rest : List Token}
  (halone : ∀ other ∈ token :: rest, other.ReadsAlone read)

include hd hbd halone

/-- A round of the loop: it takes the first token, and the blank behind it. -/
theorem thenSkip_spaced (hrest : s.rest = (Token.spaced (token :: rest)).toList) :
    ∃ found t, seqWith (fun x _ => x) p (Parser.optional d) s = .ok found t ∧
      (found.kind = token.kind ∧ found.text = token.text) ∧ t.input = s.input ∧
      s.index < t.index ∧ t.index ≤ t.input.length ∧ t.rest = (Token.spaced rest).toList := by
  obtain ⟨hfirst, hothers⟩ := List.forall_mem_cons.mp halone
  rw [Token.spaced_cons] at hrest
  -- the token is read as if nothing came after it
  have hread : read s.rest = some (token.text.length, token.kind) := by
    rw [hrest, hfirm.ends _ (Token.spacedAfter_breaks rest)]
    exact hfirst
  rcases hp s hs with ⟨n, kind, t, hread', ht, hinput, hindex⟩ | ⟨t, hnone, -⟩
  · rw [hread] at hread'
    cases hread'
    have hleft : t.rest = Token.spacedAfter rest := by
      rw [State.rest_of_moved hinput hindex, hrest, List.drop_left' String.length_toList]
    have hwithin := (hbp.ok ht).within hs
    obtain ⟨x, u, hu, hskipped, hleft'⟩ := hd.optional hbd hwithin
    rw [hleft, Token.drop_spacedAfter hfirm hadvances hothers] at hleft'
    refine ⟨_, u, seqWith_ok_ok ht hu, ⟨rfl, ?_⟩, hskipped.input.trans hinput, ?_,
      hskipped.within hwithin, hleft'⟩
    · rw [hrest, List.take_left' String.length_toList, String.ofList_toList]
    · have hpos := hadvances _ _ _ hread
      have hle := hskipped.index_le
      omega
  · rw [hread] at hnone
    cases hnone

end

/-- The invariant of the loop is that the texts of the tokens not yet found, with blanks between
them, are all that is left. -/
theorem iterate_spaced (hp : p.Reads read) (hbp : p.Backtracks) (hfirm : Firm Prod.fst read)
    (hadvances : read.Advances) (hd : d.Finds Pattern.blanks) (hbd : d.Backtracks)
    {tokens : List Token} (halone : ∀ token ∈ tokens, token.ReadsAlone read) (n : Nat)
    {s : State .text} (hs : s.index ≤ s.input.length) (hrest : s.rest = (Token.spaced tokens).toList)
    (hn : s.input.length - s.index < n) :
    ∃ again t, Parser.iterate (seqWith (fun x _ => x) p (Parser.optional d)) n s = .ok again t ∧
      again.map (fun token => (token.kind, token.text)) =
        tokens.map (fun token => (token.kind, token.text)) ∧
      t.input = s.input ∧ t.index = s.input.length := by
  induction tokens generalizing s n with
  | nil =>
    obtain ⟨n, rfl⟩ := Nat.exists_eq_succ_of_ne_zero (Nat.ne_zero_of_lt hn)
    obtain ⟨t, ht, hinput⟩ := fail_of_rest_nil hp hbp hfirm hadvances hs hrest
    have hfailed := seqWith_fail (f := fun x _ => x) (q := Parser.optional d) ht
    exact ⟨[], _, iterate_recoverable hfailed, rfl, hinput,
      Nat.le_antisymm hs (List.drop_eq_nil_iff.mp hrest)⟩
  | cons token rest ih =>
    obtain ⟨n, rfl⟩ := Nat.exists_eq_succ_of_ne_zero (Nat.ne_zero_of_lt hn)
    obtain ⟨found, t, ht, ⟨hkind, htext⟩, hinput, hpast, hwithin, hleft⟩ :=
      thenSkip_spaced hp hbp hfirm hadvances hs hd hbd halone hrest
    have hfuel : t.input.length - t.index < n := by
      rw [hinput] at hwithin ⊢
      omega
    obtain ⟨again, u, hu, hsame, hend⟩ :=
      ih (List.forall_mem_cons.mp halone).2 n hwithin hleft hfuel
    rw [hinput] at hend
    refine ⟨found :: again, u, ?_, ?_, hend⟩
    · rw [iterate_moved ht (Nat.ne_of_gt hpast), hu, Outcome.map_ok]
    · rw [List.map_cons, List.map_cons, hsame, hkind, htext]

/-- A lexer that begins in front of the first token finds all of them. -/
theorem skipThen_many_spaced (hp : p.Reads read) (hbp : p.Backtracks) (hfirm : Firm Prod.fst read)
    (hadvances : read.Advances) (hd : d.Finds Pattern.blanks) (hbd : d.Backtracks)
    {tokens : List Token} (halone : ∀ token ∈ tokens, token.ReadsAlone read)
    {s : State .text} (hs : s.index ≤ s.input.length)
    (hrest : s.rest = (Token.spaced tokens).toList) :
    ∃ again t, seqWith (fun _ y => y) (Parser.optional d)
        (Parser.many (seqWith (fun x _ => x) p (Parser.optional d))) s = .ok again t ∧
      again.map (fun token => (token.kind, token.text)) =
        tokens.map (fun token => (token.kind, token.text)) ∧
      t.input = s.input ∧ t.index = s.input.length := by
  obtain ⟨x, t, ht, hskipped, hleft⟩ := hd.optional hbd hs
  rw [hrest, Token.blanks_spaced hfirm hadvances halone, Option.getD_none, List.drop_zero] at hleft
  obtain ⟨again, u, hu, hsame, hend⟩ := iterate_spaced hp hbp hfirm hadvances hd hbd halone
    (t.input.length - t.index + 1) (hskipped.within hs) hleft (Nat.lt_succ_self _)
  rw [hskipped.input] at hend
  exact ⟨again, u, seqWith_ok_ok ht (many_ok hu), hsame, hend⟩

end Parser

/-! ## Vocabularies and integers -/

variable {S : Scope}

/-- An integer with its value, in the first of three ways to write it. -/
def Reader.long : Reader :=
  .orElse
    (.orElse (.ofPattern Pattern.hexInteger fun text => .long (Numeral.hexValue text))
      (.ofPattern Pattern.octalInteger fun text => .long (Numeral.octalValue text)))
    (.ofPattern Pattern.decimalInteger fun text => .long (Numeral.decimalValue text))

theorem Reader.firm_long : Firm Prod.fst Reader.long :=
  firm_orElse
    (firm_orElse (firm_ofPattern Pattern.firm_hexInteger _)
      (firm_ofPattern Pattern.firm_octalInteger _))
    (firm_ofPattern Pattern.firm_decimalInteger _)

theorem Reader.advances_long : Reader.long.Advances :=
  advances_orElse
    (advances_orElse (advances_ofPattern (Pattern.advances_headThen _ _) _)
      (advances_ofPattern (Pattern.advances_headThen _ _) _))
    (advances_ofPattern (Pattern.advances_headThen _ _) _)

theorem Rules.tokenize_pattern_reads (rules : Rules S) {pattern : Pattern} (h : pattern.Standard)
    (kind : Unit → List Char → TokenKind) (name : String) :
    (rules.parser (.tokenize kind (.pattern pattern name))).Reads (.ofPattern pattern (kind ())) :=
  .tokenize (.scan h.fits name) h.fits kind

theorem Rules.longTokenizer_reads (rules : Rules S) :
    (rules.parser .longTokenizer).Reads Reader.long :=
  .label "integer" (.orElse (rules.parser_backtracks _)
    (.orElse (rules.parser_backtracks _) (rules.tokenize_pattern_reads .hexInteger _ _)
      (rules.tokenize_pattern_reads .octalInteger _ _))
    (rules.tokenize_pattern_reads .decimalInteger _ _))

/-- A token that is made of all of a text is what the text is parsed to. -/
theorem Rules.parse_of_reads (rules : Rules S) {g : Grammar S .text Token}
    {read : Reader} (hg : (rules.parser g).Reads read) {text : String} {kind : TokenKind}
    (h : read text.toList = some (text.length, kind)) :
    g.parse rules text = .ok (.ok ⟨0, text.length, kind, text⟩) := by
  have hrest : State.rest { input := text.toList } = text.toList := rfl
  rcases hg { input := text.toList } (Nat.zero_le _) with
    ⟨n, kind', t, hread, ht, hinput, hindex⟩ | ⟨t, hnone, -⟩
  · rw [hrest, h] at hread
    cases hread
    have hended : ¬ t.index < t.input.length := by
      rw [hinput, hindex, String.length_toList, Nat.zero_add]
      exact Nat.lt_irrefl _
    refine Grammar.parse_of_ok (t := t) ((whole_of_ended ht hended).trans ?_)
    rw [hrest, ← String.length_toList, List.take_length, String.ofList_toList, Nat.zero_add]
  · rw [hrest, h] at hnone
    cases hnone

namespace Lexicon

/-- The words that a vocabulary looks for by itself: names, if there are keywords to be found among
them. -/
def words (lexicon : Lexicon) : Pattern :=
  if lexicon.keywords.isEmpty then fun _ => none else Pattern.identifier

/-- The lexemes of a vocabulary with the words that it looks for by itself, and integers. -/
def tokenizer (lexicon : Lexicon) : Grammar S .text Token :=
  .orElse (Registry.ofLexicon lexicon none).tokenizer .longTokenizer

variable (lexicon : Lexicon)

theorem firm_words : Firm id lexicon.words := by
  unfold words
  split
  · exact Pattern.firm_none
  · exact Pattern.firm_identifier

theorem advances_words : lexicon.words.Advances := by
  unfold words
  split
  · exact nofun
  · exact Pattern.advances_headThen _ _

theorem words_found (rules : Rules S) :
    (rules.parser (Registry.ofLexicon lexicon none).words).Finds lexicon.words := by
  unfold Registry.ofLexicon words
  rw [Option.getD_none]
  split
  · exact .refuse _
  · exact .scan Pattern.Standard.identifier.fits _

theorem tokenizer_reads (rules : Rules S) :
    (rules.parser lexicon.tokenizer).Reads (.orElse (lexicon.reader lexicon.words) .long) :=
  .orElse (rules.parser_backtracks (Registry.ofLexicon lexicon none).tokenizer)
    (.terminal lexicon (lexicon.words_found rules) (rules.parser_backtracks _)
      lexicon.advances_words fun _ _ h => lexicon.firm_words.fits h)
    rules.longTokenizer_reads

/-- **Tokens that are printed are found again.** If no operator contains a blank, set the texts of the
tokens that a lexer finds, of operators, words and integers between blanks, one after another with
one blank between any two: the lexer takes all of that, and finds as many tokens of the same kinds,
with the same texts and in the same order. -/
theorem lexer_spaced (rules : Rules S) (hunbroken : lexicon.Unbroken) {source : String}
    {tokens : List Token} {n : Nat}
    (h : (Grammar.lexer lexicon.tokenizer .blanks).parsePrefix rules source =
      .ok (.ok (tokens, n))) :
    ∃ again,
      (Grammar.lexer lexicon.tokenizer .blanks).parse rules (Token.spaced tokens) =
        .ok (.ok again) ∧
      (Grammar.lexer lexicon.tokenizer .blanks).parsePrefix rules (Token.spaced tokens) =
        .ok (.ok (again, (Token.spaced tokens).length)) ∧
      again.map (fun token => (token.kind, token.text)) =
        tokens.map (fun token => (token.kind, token.text)) := by
  have hreads := lexicon.tokenizer_reads rules
  have hfirm := Reader.firm_orElse (firm_reader hunbroken lexicon.firm_words) Reader.firm_long
  have hadvances :=
    Reader.advances_orElse (lexicon.advances_reader lexicon.advances_words) Reader.advances_long
  have hblanks : (rules.parser .blanks).Finds Pattern.blanks :=
    .scan Pattern.Standard.blanks.fits _
  obtain ⟨t, ht, -⟩ := Grammar.exists_of_parsePrefix_ok h
  have halone : ∀ token ∈ tokens,
      token.ReadsAlone (.orElse (lexicon.reader lexicon.words) .long) := by
    intro token htoken
    obtain ⟨v, u, hv, hu⟩ := Grammar.exists_of_mem_lexer
      (rules.bindings.resolver_backtracks rules.depth) ht token htoken
    exact hreads.readsAlone hfirm (hv.within (Nat.zero_le _)) hu
  obtain ⟨again, u, hu, hsame, hinput, hindex⟩ :=
    Parser.skipThen_many_spaced hreads (rules.parser_backtracks _) hfirm hadvances hblanks
      (rules.parser_backtracks _) halone (s := { input := (Token.spaced tokens).toList })
      (Nat.zero_le _) rfl
  have hrun : rules.parser (Grammar.lexer lexicon.tokenizer .blanks)
      { input := (Token.spaced tokens).toList } = .ok again u := hu
  have hended : ¬ u.index < u.input.length := by
    rw [hinput, hindex]
    exact Nat.lt_irrefl _
  refine ⟨again, Grammar.parse_of_ok (Rules.whole_of_ended hrun hended), ?_, hsame⟩
  rw [Grammar.parsePrefix_of_ok hrun, hindex, String.length_toList]

section

/-- Comparisons, calls and membership. -/
def membership : Lexicon :=
  ⟨["<", "<=", "(", ")"], ["in"], .insensitive, by decide +kernel⟩

/-- Six tokens, with blanks only where they are needed. -/
def crowded : List Token :=
  [⟨1, 2, .identifier "a", "a"⟩, ⟨2, 4, .reserved "<=", "<="⟩, ⟨4, 8, .long 31, "0x1F"⟩,
    ⟨8, 9, .reserved "(", "("⟩, ⟨9, 11, .reserved "in", "IN"⟩, ⟨12, 14, .long 7, "07"⟩]

/-- The same tokens are found where there are blanks between them. -/
theorem membership_spaced :
    membership.Unbroken ∧
    (Grammar.lexer membership.tokenizer .blanks).parsePrefix nestingRules " a<=0x1F(IN 07" =
      .ok (.ok (crowded, 14)) ∧
    ∃ again, (Grammar.lexer membership.tokenizer .blanks).parse nestingRules
        "a <= 0x1F ( IN 07" = .ok (.ok again) ∧
      again.map (fun token => (token.kind, token.text)) =
        crowded.map (fun token => (token.kind, token.text)) := by
  have hunbroken : membership.Unbroken := by decide +kernel
  have hfound : (Grammar.lexer membership.tokenizer .blanks).parsePrefix nestingRules
      " a<=0x1F(IN 07" = .ok (.ok (crowded, 14)) :=
    eq_of_acceptance? (by decide +kernel)
  obtain ⟨again, hagain, -, hsame⟩ := membership.lexer_spaced nestingRules hunbroken hfound
  have hspaced : Token.spaced crowded = "a <= 0x1F ( IN 07" := by decide +kernel
  rw [hspaced] at hagain
  exact ⟨hunbroken, hfound, again, hagain, hsame⟩

end

end Lexicon

end Descent
