import Descent.Grammar.Registry
import Descent.Proofs.Pruning
import Descent.Proofs.Range
import Descent.Proofs.Retained

/-!
The tokenizer of a vocabulary takes as much as it can.

At a place the longest operator reaches so far (`Lexicon.operatorReach`) and the scanner of words so far
(`Parser.reach`); what reaches further is cut off, and the operator if both reach equally far. How far
the scanner reaches is asked at the place alone, with nothing behind it, since the look for a word
neither depends on what was on record before nor leaves anything but events
(`Parser.exists_scanWord`). So there is one lemma for each way the two lengths can lie, and after it
only the cut is left to do.
-/

namespace Descent

/-! ## How far operators and words reach -/

namespace Lexicon

variable {lexicon : Lexicon} {text : List Char} {operator : String}

/-- The length of the longest operator at the front of a text; 0 if there is none. -/
def operatorReach (lexicon : Lexicon) (text : List Char) : Nat :=
  ((lexicon.operators.filter (·.toList.isPrefixOf text)).map String.length).max?.getD 0

theorem operatorReach_of_some (h : longestOperator? lexicon.operators text = some operator) :
    lexicon.operatorReach text = operator.length := by
  obtain ⟨hmem, hfront, hlongest⟩ := longestOperator?_longest h
  have hmax : ((lexicon.operators.filter (·.toList.isPrefixOf text)).map String.length).max? =
      some operator.length := by
    refine List.max?_eq_some_iff.mpr ⟨?_, fun n hn => ?_⟩
    · exact List.mem_map_of_mem
        (List.mem_filter.mpr ⟨hmem, List.isPrefixOf_iff_prefix.mpr hfront⟩)
    · obtain ⟨other, hother, rfl⟩ := List.mem_map.mp hn
      obtain ⟨hother, hother'⟩ := List.mem_filter.mp hother
      exact hlongest other hother (List.isPrefixOf_iff_prefix.mp hother')
  rw [operatorReach, hmax, Option.getD_some]

theorem operatorReach_of_none (h : longestOperator? lexicon.operators text = none) :
    lexicon.operatorReach text = 0 := by
  have hnone : lexicon.operators.filter (·.toList.isPrefixOf text) = [] :=
    List.filter_eq_nil_iff.mpr fun operator hmem hfront =>
      longestOperator?_eq_none.mp h operator hmem (List.isPrefixOf_iff_prefix.mp hfront)
  rw [operatorReach, hnone, List.map_nil, List.max?_nil, Option.getD_none]

/-- What a word is for a vocabulary: the one keyword that is spelled like it, or else a name. -/
inductive KindOfWord (lexicon : Lexicon) (word : String) : TokenKind → Prop where
  | keyword {keyword : String} (mem : keyword ∈ lexicon.keywords)
      (spelled : lexicon.rule.normalize keyword = lexicon.rule.normalize word)
      (only : ∀ other ∈ lexicon.keywords,
        lexicon.rule.normalize other = lexicon.rule.normalize word → other = keyword) :
      KindOfWord lexicon word (.reserved keyword)
  | name (h : ∀ keyword ∈ lexicon.keywords,
      lexicon.rule.normalize keyword ≠ lexicon.rule.normalize word) :
      KindOfWord lexicon word (.identifier word)

theorem kindOfWord_wordKind (lexicon : Lexicon) (word : String) :
    lexicon.KindOfWord word (lexicon.wordKind word) := by
  unfold wordKind
  cases h : lexicon.keyword? word with
  | some keyword =>
    have hspelled : (lexicon.rule.normalize keyword == lexicon.rule.normalize word) = true :=
      List.find?_some (p := fun keyword =>
        lexicon.rule.normalize keyword == lexicon.rule.normalize word) h
    refine .keyword (List.mem_of_find?_eq_some h) (beq_iff_eq.mp hspelled)
      fun other hother hother' => ?_
    rw [lexicon.keyword?_eq_some hother hother', Option.some_inj] at h
    exact h
  | none =>
    exact .name fun keyword hkeyword hsame =>
      List.find?_eq_none.mp h keyword hkeyword (beq_iff_eq.mpr hsame)

/-- The operators are expected in the order in which they are registered. -/
theorem addNames_operators (lexicon : Lexicon) :
    addNames [] lexicon.operators = lexicon.operators := by
  have hnodup : lexicon.operators.Nodup :=
    (List.pairwise_append.mp lexicon.normalize_pairwise).1.imp fun hne hsame => hne (congrArg _ hsame)
  exact (addNames_eraseDups [] lexicon.operators).trans (eraseDups_of_nodup hnodup)

end Lexicon

theorem State.afterLook_eq {a : Alphabet} {s t : State a} (hinput : t.input = s.input) :
    s.afterLook t = { s with events := t.events } := by
  simp only [afterLook, hinput]

namespace Parser

/-- How many units a parser takes at a place of an input; none if it does not succeed. -/
def reach {a : Alphabet} {α : Type} (p : Parser a α) (input : List a.Item) (index : Nat) : Nat :=
  match p { input, index } with
  | .ok _ t => t.index - index
  | .fail _ _ => 0
  | .fault _ => 0

variable {words : Parser .text Unit} {s : State .text}

theorem reach_ok {a : Alphabet} {α : Type} {p : Parser a α} {s t : State a} {x : α}
    (h : p s.bare = .ok x t) : p.reach s.input s.index = t.index - s.index := by
  have hrun : p { input := s.input, index := s.index } = .ok x t := h
  simp only [reach, hrun]

theorem reach_fail {a : Alphabet} {α : Type} {p : Parser a α} {s t : State a} {severity : Severity}
    (h : p s.bare = .fail severity t) : p.reach s.input s.index = 0 := by
  have hrun : p { input := s.input, index := s.index } = .fail severity t := h
  simp only [reach, hrun]

/-- The look for a word finds where the scanner reaches from the bare place, if it moves, and changes
nothing but the events. -/
theorem exists_scanWord (hp : words.HistoryFree) (hb : words.Backtracks)
    (h : ∀ f, words s.bare ≠ .fault f) :
    ∃ events, scanWord words s =
      .ok (if 0 < words.reach s.input s.index then some (s.index + words.reach s.input s.index)
        else none, { s with events }) := by
  have hplace : s.dropFailure.bare = s.bare := rfl
  cases hrun : words s.bare with
  | ok x t =>
    obtain ⟨u, hu, hend⟩ := hp.ok_of_bare hrun hplace
    have hle : s.index ≤ t.index := (hb.ok hrun).index_le
    have hinput : u.input = s.input := (hb.ok hu).input
    have hindex : u.index = t.index := (State.bare_eq_iff.mp hend).2
    refine ⟨u.events, ?_⟩
    rw [scanWord_ok hu, State.afterLook_eq hinput, reach_ok hrun, hindex, Nat.add_sub_cancel' hle]
    simp only [Nat.sub_pos_iff_lt]
  | fail severity t =>
    obtain ⟨u, hu, -⟩ := hp.fail_of_bare hrun hplace
    have hinput : u.input = s.input := (hb.fail hu).1
    refine ⟨u.events, ?_⟩
    rw [scanWord_fail hu, State.afterLook_eq hinput, reach_fail hrun]
    rfl
  | fault f => exact absurd hrun (h f)

theorem reach_le (hb : words.Backtracks) (hs : s.index ≤ s.input.length) :
    s.index + words.reach s.input s.index ≤ s.input.length := by
  cases hrun : words s.bare with
  | ok x t =>
    have hend : t.index ≤ s.input.length := (hb.ok hrun).input ▸ (hb.ok hrun).within hs
    have hle : s.index ≤ t.index := (hb.ok hrun).index_le
    rwa [reach_ok hrun, Nat.add_sub_cancel' hle]
  | fail severity t => rwa [reach_fail hrun]
  | fault f =>
    have hrun' : words { input := s.input, index := s.index } = .fault f := hrun
    simp only [reach, hrun']
    exact hs

/-! ## What is cut off -/

theorem cut_reach {n : Nat} (kind : String → TokenKind) (h : s.index + n ≤ s.input.length) :
    cut (s.index + n) kind s =
      .ok ⟨s.index, s.index + n, kind (.ofList ((s.input.drop s.index).take n)),
        .ofList ((s.input.drop s.index).take n)⟩ (s.moveTo (s.index + n)) := by
  have hslice : s.slice? s.index (s.index + n) = some ((s.input.drop s.index).take n) := by
    rw [State.slice?, if_pos ⟨Nat.le_add_right _ _, h⟩, Nat.add_sub_cancel_left]
  exact cut_ok hslice

/-- Nothing is there, or the word reaches further, or the longest operator reaches as far as the word.
In each case only events are new before the cut. -/
theorem terminal_cases (lexicon : Lexicon) (hs : s.index ≤ s.input.length)
    (hp : words.HistoryFree) (hb : words.Backtracks) (hwords : ∀ f, words s.bare ≠ .fault f) :
    ∃ events,
      (lexicon.operatorReach (s.input.drop s.index) = 0 ∧ words.reach s.input s.index = 0 ∧
        terminal lexicon words s = .fail .recoverable
          { s.record ⟨s.index, lexicon.operators, none, s.encountered⟩ with events }) ∨
      (lexicon.operatorReach (s.input.drop s.index) < words.reach s.input s.index ∧
        terminal lexicon words s =
          cut (s.index + words.reach s.input s.index) lexicon.wordKind { s with events }) ∨
      ∃ operator ∈ lexicon.operators, operator.toList <+: s.input.drop s.index ∧
        operator.length = lexicon.operatorReach (s.input.drop s.index) ∧
        words.reach s.input s.index ≤ operator.length ∧
        terminal lexicon words s =
          cut (s.index + operator.length) (fun _ => .reserved operator) { s with events } := by
  have hstart : ¬ (s.input.length < s.index ∧ lexicon.operators ≠ []) :=
    fun h => Nat.not_lt.mpr hs h.1
  obtain ⟨events, hscan⟩ := exists_scanWord hp hb hwords
  refine ⟨events, ?_⟩
  rcases terminal_scanned hstart hscan with ⟨hnone, hstop, hrun⟩ | ⟨n, hstop, hlonger, hrun⟩ |
    ⟨operator, hfound, hlonger, hrun⟩
  · refine .inl ⟨Lexicon.operatorReach_of_none hnone, ?_, ?_⟩
    · exact Nat.eq_zero_of_not_pos fun hpos => nomatch ite_eq_right_iff.mp hstop hpos
    · rw [hrun, State.expect, lexicon.addNames_operators]
      rfl
  · obtain ⟨hpos, hn⟩ := Option.ite_none_right_eq_some.mp hstop
    cases hn
    refine .inr (.inl ⟨?_, hrun⟩)
    cases hfound : Lexicon.longestOperator? lexicon.operators (s.input.drop s.index) with
    | none => rwa [Lexicon.operatorReach_of_none hfound]
    | some operator =>
      rw [Lexicon.operatorReach_of_some hfound]
      exact Nat.lt_of_add_lt_add_left (hlonger operator hfound)
  · obtain ⟨hmem, hfront, -⟩ := Lexicon.longestOperator?_longest hfound
    refine .inr (.inr ⟨operator, hmem, hfront, (Lexicon.operatorReach_of_some hfound).symm, ?_, hrun⟩)
    rcases Nat.eq_zero_or_pos (words.reach s.input s.index) with hzero | hpos
    · rw [hzero]
      exact Nat.zero_le _
    · exact Nat.le_of_add_le_add_left (hlonger _ (if_pos hpos))

end Parser

/-- **Maximal munch, with the operator before the word.** At a place within the text where the scanner
of words is not at fault, let `L` be the length of the longest operator that stands there and `W` how
far the scanner of words reaches. If neither reaches anywhere, the tokenizer fails recoverably and
nothing but the operators, in the order of their registration, is put on record. If the word is longer,
it is taken, as the one keyword spelled like it or as a name; otherwise the longest operator is. What
was on record stays as it was when a token is taken, and whatever the scanner of words has done, of it
only the events remain. -/
theorem Registry.tokenizer_munches {S : Scope} (rules : Rules S) (registry : Registry S)
    (s : State .text) (hs : s.index ≤ s.input.length)
    (hwords : ∀ f, rules.parser registry.words { input := s.input, index := s.index } ≠ .fault f) :
    ∃ L W, L = registry.lexicon.operatorReach (s.input.drop s.index) ∧
      W = (rules.parser registry.words).reach s.input s.index ∧
      (L = 0 → W = 0 → ∃ events, rules.parser registry.tokenizer s = .fail .recoverable
        { s.record ⟨s.index, registry.lexicon.operators, none, s.encountered⟩ with events }) ∧
      (L < W → ∃ kind events, rules.parser registry.tokenizer s =
          .ok ⟨s.index, s.index + W, kind, .ofList ((s.input.drop s.index).take W)⟩
            { s.moveTo (s.index + W) with events } ∧
        registry.lexicon.KindOfWord (.ofList ((s.input.drop s.index).take W)) kind) ∧
      (0 < L → W ≤ L → ∃ operator ∈ registry.lexicon.operators, operator.length = L ∧
        operator.toList = (s.input.drop s.index).take L ∧
        ∃ events, rules.parser registry.tokenizer s =
          .ok ⟨s.index, s.index + L, .reserved operator, operator⟩
            { s.moveTo (s.index + L) with events }) := by
  have hp : (rules.parser registry.words).HistoryFree := rules.parser_withPast registry.words
  have hb : (rules.parser registry.words).Backtracks := rules.parser_backtracks registry.words
  have hreach := Parser.reach_le hb hs
  obtain ⟨events, hcases⟩ := Parser.terminal_cases registry.lexicon hs hp hb hwords
  refine ⟨_, _, rfl, rfl, fun hL hW => ?_, fun hlt => ?_, fun hpos hle => ?_⟩
  · rcases hcases with ⟨-, -, hrun⟩ | ⟨hlt, -⟩ | ⟨operator, hmem, -, hlength, -, -⟩
    · exact ⟨events, hrun⟩
    · omega
    · have hpos := registry.lexicon.operator_length_pos hmem
      omega
  · rcases hcases with ⟨-, hW, -⟩ | ⟨-, hrun⟩ | ⟨operator, -, -, hlength, hle, -⟩
    · omega
    · exact ⟨_, events, hrun.trans (Parser.cut_reach _ hreach),
        registry.lexicon.kindOfWord_wordKind _⟩
    · omega
  · rcases hcases with ⟨hL, -, -⟩ | ⟨hlt, -⟩ | ⟨operator, hmem, hfront, hlength, -, hrun⟩
    · omega
    · omega
    · have htake : operator.toList = (s.input.drop s.index).take operator.length := by
        rw [← String.length_toList]
        exact List.prefix_iff_eq_take.mp hfront
      have hwithin : s.index + operator.length ≤ s.input.length := by
        have hle := hfront.length_le
        rw [String.length_toList, List.length_drop] at hle
        omega
      rw [← hlength]
      refine ⟨operator, hmem, rfl, htake, events, hrun.trans ?_⟩
      rw [Parser.cut_reach (s := { s with events }) _ hwithin, ← htake, String.ofList_toList]
      rfl

section

/-- Pairs as words, beside an operator that is half a pair. -/
def pairWords : Registry closedScope where
  lexicon := ⟨["+", "a"], ["AB"], .insensitive, by decide +kernel⟩
  words := .map (fun _ => ()) strictPair

/-- A pair and half a pair, with a failure on record that is further on. -/
def pairAndHalf (index : Nat) : State .text :=
  { input := ['a', 'b', 'a', 'c'], index, failure := some ⟨3, ["digit"], none, .unit "c"⟩ }

/-- The pair is longer than the operator and is the keyword. Where the scanner commits to half a pair
the operator is taken all the same, and what is neither is refused behind what was expected before. -/
theorem pairWords_munch :
    (∀ index ∈ [0, 2, 3], (pairAndHalf index).index ≤ (pairAndHalf index).input.length ∧
      ∀ f, closedRules.parser pairWords.words
        { input := (pairAndHalf index).input, index := (pairAndHalf index).index } ≠ .fault f) ∧
    (∃ t, closedRules.parser pairWords.tokenizer (pairAndHalf 0) =
      .ok ⟨0, 2, .reserved "AB", "ab"⟩ t ∧ t.failure = (pairAndHalf 0).failure) ∧
    (∃ t, closedRules.parser pairWords.tokenizer (pairAndHalf 2) =
      .ok ⟨2, 3, .reserved "a", "a"⟩ t ∧ t.failure = (pairAndHalf 2).failure) ∧
    ∃ t, closedRules.parser pairWords.tokenizer (pairAndHalf 3) = .fail .recoverable t ∧
      t.failure = some ⟨3, ["digit", "+", "a"], none, .unit "c"⟩ := by
  have hstart : ∀ index ∈ [0, 2, 3],
      (pairAndHalf index).index ≤ (pairAndHalf index).input.length ∧
      ∀ f, closedRules.parser pairWords.words
        { input := (pairAndHalf index).input, index := (pairAndHalf index).index } ≠ .fault f := by
    simp only [List.forall_mem_cons]
    exact ⟨⟨by decide, nofun⟩, ⟨by decide, nofun⟩, ⟨by decide, nofun⟩, nofun⟩
  have hmunches (index : Nat) (h : index ∈ [0, 2, 3]) :=
    pairWords.tokenizer_munches closedRules (pairAndHalf index) (hstart index h).1 (hstart index h).2
  obtain ⟨L, W, hL, hW, -, hword, -⟩ := hmunches 0 (by decide)
  have hL : L = 1 := hL.trans (by decide +kernel)
  have hW : W = 2 := hW
  subst hL hW
  obtain ⟨kind, events, hrun, hkind⟩ := hword (by decide)
  have hkeyword : kind = .reserved "AB" := by
    cases hkind with
    | keyword mem => rw [List.mem_singleton.mp mem]
    | name h => exact absurd (by decide +kernel) (h "AB" (.head _))
  subst hkeyword
  obtain ⟨L, W, hL, hW, -, -, hoperator⟩ := hmunches 2 (by decide)
  have hL : L = 1 := hL.trans (by decide +kernel)
  have hW : W = 0 := hW
  subst hL hW
  obtain ⟨operator, -, -, htext, events', hrun'⟩ := hoperator (by decide) (by decide)
  have ha : operator = "a" := String.toList_inj.mp htext
  subst ha
  obtain ⟨L, W, hL, hW, hneither, -, -⟩ := hmunches 3 (by decide)
  have hL : L = 0 := hL.trans (by decide +kernel)
  have hW : W = 0 := hW
  obtain ⟨events'', hrun''⟩ := hneither hL hW
  exact ⟨hstart, ⟨_, hrun, rfl⟩, ⟨_, hrun', rfl⟩, _, hrun'', rfl⟩

end

end Descent
