import Descent.Grammar.Parse
import Descent.Grammar.TokenLiteral
import Descent.Proofs.Tiling

/-!
Names mean what the tokenizer makes of them.

A vocabulary is asked in two ways: for what a name stands (`Lexicon.resolve?`), which looks for the
name among the operators and then among the keywords; and for the token at the front of a text, where
the longest operator competes with a word. A text that is an operator, or a word from end to end, is
one token, of the kind that its name stands for (`Registry.tokenizer_resolves`). The longest operator
that could come in its way is the text itself (`Lexicon.longestOperator?_toList`).
-/

namespace Descent

variable {S : Scope} {α : Type}

namespace Lexicon

variable (lexicon : Lexicon) {text lexeme : String}

/-- What the name makes of a text: the lexeme it stands for, or a name that stands for nothing. -/
def kindOf (text : String) : TokenKind :=
  match lexicon.resolve? text with
  | some lexeme => .reserved lexeme
  | none => .identifier text

/-- One of the names stands for the same lexeme as the text. -/
def Names (names : List String) (text : String) : Prop :=
  ∃ name ∈ names, lexicon.resolve? name = lexicon.resolve? text ∧ lexicon.resolve? name ≠ none

theorem kindOf_of_some (h : lexicon.resolve? text = some lexeme) :
    lexicon.kindOf text = .reserved lexeme := by
  rw [kindOf, h]

theorem kindOf_of_none (h : lexicon.resolve? text = none) :
    lexicon.kindOf text = .identifier text := by
  rw [kindOf, h]

theorem kindOf_eq_reserved :
    lexicon.kindOf text = .reserved lexeme ↔ lexicon.resolve? text = some lexeme := by
  cases h : lexicon.resolve? text with
  | some found => rw [lexicon.kindOf_of_some h, TokenKind.reserved.injEq, Option.some_inj]
  | none => rw [lexicon.kindOf_of_none h]; exact ⟨nofun, nofun⟩

theorem kindOf_eq_identifier :
    lexicon.kindOf text = .identifier text ↔ lexicon.resolve? text = none := by
  cases h : lexicon.resolve? text with
  | some found => rw [lexicon.kindOf_of_some h]; exact ⟨nofun, nofun⟩
  | none => exact ⟨fun _ => rfl, fun _ => lexicon.kindOf_of_none h⟩

theorem kindOf_operator (h : text ∈ lexicon.operators) : lexicon.kindOf text = .reserved text :=
  lexicon.kindOf_of_some (lexicon.resolve?_operator h)

/-- What is no operator is of the kind of a word. -/
theorem kindOf_of_not_mem (h : text ∉ lexicon.operators) :
    lexicon.kindOf text = lexicon.wordKind text := by
  have hresolved := lexicon.resolve?_of_not_mem h
  cases hword : lexicon.keyword? text with
  | some keyword => rw [lexicon.kindOf_of_some (hresolved.trans hword), wordKind, hword]
  | none => rw [lexicon.kindOf_of_none (hresolved.trans hword), wordKind, hword]

/-- An operator is the longest at the front of its own text. -/
theorem longestOperator?_toList (h : text ∈ lexicon.operators) :
    longestOperator? lexicon.operators text.toList = some text := by
  refine longestOperator?_eq_some h (List.prefix_refl _) fun other _ hfront => ?_
  rw [← String.length_toList, ← String.length_toList]
  exact hfront.length_le

/-- At the front of a text no operator is as long as the text, unless it is the text. -/
theorem length_lt_of_not_mem {operator : String} (h : text ∉ lexicon.operators)
    (hfound : longestOperator? lexicon.operators text.toList = some operator) :
    operator.length < text.length := by
  obtain ⟨hmem, hfront, -⟩ := longestOperator?_longest hfound
  rw [← String.length_toList, ← String.length_toList]
  refine Nat.lt_of_le_of_ne hfront.length_le fun hlength => h ?_
  rwa [← String.toList_inj.mp (hfront.eq_of_length hlength)]

end Lexicon

/-! ## One token from end to end -/

namespace Registry

/-- The scanner of words takes the whole text, and that is not nothing. -/
def IsWord (rules : Rules S) (registry : Registry S) (text : String) : Prop :=
  text ≠ "" ∧
  ∃ t, rules.parser registry.words { input := text.toList } = .ok () t ∧ t.index = text.length

/-- The token that is the whole text. -/
def tokenOf (registry : Registry S) (text : String) : Token :=
  ⟨0, text.length, registry.lexicon.kindOf text, text⟩

end Registry

namespace Parser

theorem cut_toList {text : String} {kind : String → TokenKind} {s : State .text}
    (hinput : s.input = text.toList) (hindex : s.index = 0) :
    cut text.length kind s = .ok ⟨0, text.length, kind text, text⟩ (s.moveTo text.length) := by
  have hlength : text.toList.length = text.length := String.length_toList
  have hslice : s.slice? s.index text.length = some text.toList := by
    rw [State.slice?, hinput, hindex, if_pos ⟨Nat.zero_le _, Nat.le_of_eq hlength.symm⟩,
      List.drop_zero, Nat.sub_zero, ← hlength, List.take_length]
  rw [cut_ok hslice, String.ofList_toList, hindex]

/-- Where the words stop that are found in a text which is one. -/
theorem scanWord_stop {words : Parser .text Unit} {s t u : State .text} {x : Unit}
    (h : words s.dropFailure = .ok x t) (hlt : s.index < t.index) {stop : Option Nat}
    (hscan : scanWord words s = .ok (stop, u)) : stop = some t.index := by
  rw [scanWord_ok h, if_pos hlt] at hscan
  cases hscan
  rfl

/-- An operator that is the whole text wins against any word in it, and a word that is the whole text
against any operator in it. -/
theorem terminal_cuts_all {lexicon : Lexicon} {words : Parser .text Unit} {text : String}
    {t : State .text} {stop : Option Nat}
    (hscan : scanWord words { input := text.toList } = .ok (stop, t))
    (hinput : t.input = text.toList) (hindex : t.index = 0)
    (hbound : ∀ n, stop = some n → n ≤ text.length)
    (hword : text ∉ lexicon.operators → stop = some text.length) :
    ∃ kind, kind text = lexicon.kindOf text ∧
      terminal lexicon words { input := text.toList } = cut text.length kind t := by
  have hstart : ¬ (text.toList.length < 0 ∧ lexicon.operators ≠ []) :=
    fun h => Nat.not_lt_zero _ h.1
  have hrest : t.input.drop t.index = text.toList := by rw [hinput, hindex, List.drop_zero]
  have hscanned := terminal_scanned (s := { input := text.toList }) hstart hscan
  rw [hrest, hindex] at hscanned
  by_cases hmem : text ∈ lexicon.operators
  · have hlongest := lexicon.longestOperator?_toList hmem
    rcases hscanned with ⟨hnone, -, -⟩ | ⟨n, hn, hlonger, -⟩ | ⟨operator, hfound, -, hrun⟩
    · rw [hlongest] at hnone; cases hnone
    · have hwithin := hbound n hn
      have hpast := hlonger text hlongest
      omega
    · rw [hlongest] at hfound
      cases hfound
      rw [Nat.zero_add] at hrun
      exact ⟨fun _ => .reserved text, (lexicon.kindOf_operator hmem).symm, hrun⟩
  · obtain rfl := hword hmem
    rcases hscanned with ⟨-, hnone, -⟩ | ⟨n, hn, -, hrun⟩ | ⟨operator, hfound, hlonger, -⟩
    · cases hnone
    · cases hn
      exact ⟨_, (lexicon.kindOf_of_not_mem hmem).symm, hrun⟩
    · have hshorter := lexicon.length_lt_of_not_mem hmem hfound
      have hlonger := hlonger _ rfl
      omega

end Parser

namespace Registry

variable (rules : Rules S) (registry : Registry S) {text : String}

/-- A text that is an operator or a word is cut off whole. -/
theorem tokenizer_takes_all
    (hwords : ∀ f, rules.parser registry.words { input := text.toList } ≠ .fault f)
    (htext : text ∈ registry.lexicon.operators ∨ registry.IsWord rules text) :
    ∃ t, rules.parser registry.tokenizer { input := text.toList } =
      .ok (registry.tokenOf text) t ∧ t.input = text.toList ∧ t.index = text.length := by
  have hb := rules.parser_backtracks registry.words
  cases hscan : Parser.scanWord (rules.parser registry.words) { input := text.toList } with
  | error f => exact absurd (Parser.Tokenizes.scanWord_error hscan) (hwords f)
  | ok scanned =>
    obtain ⟨stop, u⟩ := scanned
    obtain ⟨hinput, hindex⟩ := Parser.Backtracks.scanWord hb hscan
    have hbound : ∀ n, stop = some n → n ≤ text.length := by
      rintro n rfl
      have hwithin := (Parser.InRange.scanWord_bounds hb (Nat.zero_le _) hscan).2
      rwa [← String.length_toList]
    have hword : text ∉ registry.lexicon.operators → stop = some text.length := by
      intro hmem
      obtain ⟨hne, t, ht, hstop⟩ := htext.resolve_left hmem
      have hpos : 0 < t.index :=
        hstop ▸ Nat.pos_of_ne_zero fun hzero => hne (String.length_eq_zero_iff.mp hzero)
      rw [Parser.scanWord_stop (s := { input := text.toList }) ht hpos hscan, hstop]
    obtain ⟨kind, hkind, hrun⟩ := Parser.terminal_cuts_all hscan hinput hindex hbound hword
    refine ⟨u.moveTo text.length, ?_, hinput, rfl⟩
    apply hrun.trans
    rw [Parser.cut_toList hinput hindex, hkind]
    rfl

end Registry

/-! ## Taking the token -/

/-- Where the token comes next, the parser takes it for a value if a condition holds. If it does not
hold, the parser fails there and alternatives may be tried. -/
def Parser.TakesIf (p : Parser .tokens α) (token : Token) (value : α) (condition : Prop) : Prop :=
  ∀ s, s.next? = some token →
    (condition → p s = .ok value s.advance) ∧
    (¬ condition → ∃ t, p s = .fail .recoverable t ∧ t.index = s.index)

theorem Parser.TakesIf.item {extract : Token → Option α} {token : Token} {value : α}
    {condition : Prop} (names : List String) (hsome : condition → extract token = some value)
    (hnone : ¬ condition → extract token = none) :
    (Parser.item (a := .tokens) extract names).TakesIf token value condition := by
  intro s hs
  refine ⟨fun h => ?_, fun h => ⟨s.expect names, ?_, rfl⟩⟩
  · simp only [Parser.item, hs, Option.bind_some, hsome h]
  · simp only [Parser.item, hs, Option.bind_some, hnone h]

namespace Registry

variable (rules : Rules S) (registry : Registry S) {text : String}

/-- A name of the list is there exactly if the lexeme of the token is among those of the names. -/
theorem token_takesIf (names : List String) :
    (rules.parser (registry.token names)).TakesIf (registry.tokenOf text) (registry.tokenOf text)
      (registry.lexicon.Names names text) := by
  have hlexeme : ∀ lexeme, (registry.tokenOf text).reserved? = some lexeme ↔
      registry.lexicon.resolve? text = some lexeme := by
    intro lexeme
    rw [← registry.lexicon.kindOf_eq_reserved, Token.reserved?, tokenOf]
    cases registry.lexicon.kindOf text <;> simp
  refine .item names (fun h => ?_) (fun h => ?_)
  · obtain ⟨name, hname, hsame, hsome⟩ := h
    obtain ⟨lexeme, hresolved⟩ := Option.ne_none_iff_exists'.mp hsome
    rw [(hlexeme lexeme).mpr (hsame ▸ hresolved), Option.any_some, if_pos]
    exact List.contains_iff_mem.mpr (List.mem_filterMap.mpr ⟨name, hname, hresolved⟩)
  · refine if_neg fun hany => h ?_
    obtain ⟨lexeme, hreserved, hmem⟩ := (Option.any_eq_true _ _).mp hany
    obtain ⟨name, hname, hresolved⟩ :=
      List.mem_filterMap.mp (List.contains_iff_mem.mp hmem)
    refine ⟨name, hname, hresolved.trans ((hlexeme lexeme).mp hreserved).symm, ?_⟩
    rw [hresolved]
    exact nofun

theorem identifierToken_takesIf :
    (rules.parser Grammar.identifierToken).TakesIf (registry.tokenOf text) text
      (registry.lexicon.resolve? text = none) := by
  refine .item ["identifier"] (fun h => ?_) (fun h => ?_)
  · rw [tokenOf, registry.lexicon.kindOf_of_none h]
  · obtain ⟨lexeme, hresolved⟩ := Option.ne_none_iff_exists'.mp h
    rw [tokenOf, registry.lexicon.kindOf_of_some hresolved]

/-- **Names mean what the tokenizer makes of them.** Let a text be an operator, or a word from end to
end, with words that are not at fault there. The tokenizer makes it one token that is the whole
text: reserved if the text stands for a lexeme, and then with that lexeme; a name if it stands for
nothing. So `token` takes it exactly if one of the names stands for the same lexeme, and
`identifierToken` exactly if the text stands for nothing. An operator comes back as itself, and what
is spelled like a keyword as that keyword. -/
theorem tokenizer_resolves
    (hwords : ∀ f, rules.parser registry.words { input := text.toList } ≠ .fault f)
    (htext : text ∈ registry.lexicon.operators ∨ registry.IsWord rules text) :
    ∃ token : Token,
      registry.tokenizer.parse rules text = .ok (.ok token) ∧
      (token.start = 0 ∧ token.stop = text.length ∧ token.text = text) ∧
      (∀ lexeme, token.kind = .reserved lexeme ↔
        registry.lexicon.resolve? text = some lexeme) ∧
      (token.kind = .identifier text ↔ registry.lexicon.resolve? text = none) ∧
      (∀ names, (rules.parser (registry.token names)).TakesIf token token
        (registry.lexicon.Names names text)) ∧
      (rules.parser .identifierToken).TakesIf token text
        (registry.lexicon.resolve? text = none) ∧
      (text ∈ registry.lexicon.operators → token.kind = .reserved text) ∧
      ∀ keyword ∈ registry.lexicon.keywords,
        registry.lexicon.rule.normalize text = registry.lexicon.rule.normalize keyword →
        token.kind = .reserved keyword := by
  obtain ⟨t, ht, hinput, hindex⟩ := registry.tokenizer_takes_all rules hwords htext
  have hended : ¬ t.index < t.input.length := by
    rw [hinput, hindex, String.length_toList]
    exact Nat.lt_irrefl _
  refine ⟨registry.tokenOf text, Grammar.parse_of_ok (Rules.whole_of_ended ht hended),
    ⟨rfl, rfl, rfl⟩, fun lexeme => registry.lexicon.kindOf_eq_reserved,
    registry.lexicon.kindOf_eq_identifier, fun names => registry.token_takesIf rules names,
    registry.identifierToken_takesIf rules, registry.lexicon.kindOf_operator, ?_⟩
  intro keyword hkeyword hspelled
  have hfound := registry.lexicon.keyword?_eq_some hkeyword hspelled.symm
  have hmem : text ∉ registry.lexicon.operators := by
    intro hmem
    rw [registry.lexicon.keyword?_operator hmem] at hfound
    cases hfound
  exact registry.lexicon.kindOf_of_some ((registry.lexicon.resolve?_of_not_mem hmem).trans hfound)

section

/-- Comparisons and bindings, in whatever letters. -/
def comparisons : Registry nestingScope :=
  .ofLexicon ⟨["<", "<="], ["let"], .insensitive, by decide +kernel⟩ none

/-- A keyword in capitals comes back in its registered spelling. -/
theorem comparisons_resolve_capitals :
    (∀ f, nestingRules.parser comparisons.words { input := "LET".toList } ≠ .fault f) ∧
    comparisons.IsWord nestingRules "LET" ∧
    ∃ token, comparisons.tokenizer.parse nestingRules "LET" = .ok (.ok token) ∧
      token.kind = .reserved "let" ∧
      (nestingRules.parser (comparisons.token ["<", "Let"])).TakesIf token token
        (comparisons.lexicon.Names ["<", "Let"] "LET") := by
  have hvalue : (nestingRules.parser comparisons.words { input := "LET".toList }).value? =
      some ((), 3) := by decide +kernel
  obtain ⟨t, ht, hstop⟩ := Outcome.exists_of_value? hvalue
  have hwords : ∀ f, nestingRules.parser comparisons.words { input := "LET".toList } ≠ .fault f := by
    rw [ht]
    exact nofun
  have hword : comparisons.IsWord nestingRules "LET" := ⟨by decide, t, ht, hstop⟩
  obtain ⟨token, hparse, -, -, -, htakes, -, -, hkeyword⟩ :=
    comparisons.tokenizer_resolves nestingRules hwords (.inr hword)
  exact ⟨hwords, hword, token, hparse, hkeyword "let" (.head _) (by decide +kernel),
    htakes ["<", "Let"]⟩

end

end Registry

end Descent
