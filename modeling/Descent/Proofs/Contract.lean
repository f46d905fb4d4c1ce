import Descent.Grammar.TokenLiteral
import Descent.Proofs.Explained
import Descent.Proofs.Range

/-!
What every parser promises those that are built on it.

`Outcome.Respects` is the promise about the place, `Rules.parser_respects` says that all grammars
put together by the library keep it, and that they give a reason when they fail recoverably. The
reason is owed only where no parser fails without a word.
-/

namespace Descent

variable {S : Scope} {a : Alphabet} {α : Type}

/-- An outcome of a run from a state within its input: the input is unchanged, a success lies
between the place and the end, a failure is at the place, and nothing out of range was asked for. -/
inductive Outcome.Respects (s : State a) : Outcome a α → Prop where
  | ok (value : α) {t : State a} (input : t.input = s.input) (index_le : s.index ≤ t.index)
      (within : t.index ≤ s.input.length) : Respects s (.ok value t)
  | fail (severity : Severity) {t : State a} (input : t.input = s.input)
      (index : t.index = s.index) : Respects s (.fail severity t)
  | fault {f : Fault} (inRange : f ≠ .outOfRange) : Respects s (.fault f)

/-- **The backtracking contract.** A parser put together by the library, references to such parsers
included, keeps to its input; and if nothing in it fails without a word, a recoverable failure has a
reason on record at the place or beyond. -/
theorem Rules.parser_respects (rules : Rules S) (g : Grammar S a α)
    (hg : g.Throughout rules.bindings fun part => part.grammar.Proper) (s : State a)
    (hs : s.index ≤ s.input.length) :
    (rules.parser g s).Respects s ∧
    ((g.Throughout rules.bindings fun part => part.grammar.Vocal) →
      ∀ t, rules.parser g s = .fail .recoverable t →
        ∃ failure, t.failure = some failure ∧ s.index ≤ failure.position) := by
  constructor
  · have hplace := rules.parser_backtracks g s
    have hrange := Rules.parser_inRange hg s hs
    cases h : rules.parser g s with
    | ok x t =>
      rw [h] at hplace
      exact .ok x hplace.input hplace.index_le (hplace.input ▸ hplace.within hs)
    | fail severity t => rw [h] at hplace; exact .fail severity hplace.1 hplace.2
    | fault f => exact .fault fun hf => hrange (hf ▸ h)
  · intro hvocal t ht
    exact Rules.parser_explains (fun part hpart => ⟨hg part hpart, hvocal part hpart⟩) s t ht

/-! ## Names in parentheses

A grammar that refers to itself, on the tokens of a small vocabulary. -/

section

/-- One reference, to a grammar of tokens. -/
def nestingScope : Scope where
  Ref := Unit
  decideEq := inferInstance
  alphabet := fun _ => .tokens
  Value := fun _ => String

/-- Parentheses and names. -/
def parentheses : Registry nestingScope :=
  .ofLexicon ⟨["(", ")"], ["in"], .sensitive, by decide⟩ none

/-- A name in any number of parentheses. -/
def nestedName : Grammar nestingScope .tokens String :=
  .orElse .identifierToken
    (.between (parentheses.token ["("]) (.ref ()) (parentheses.token [")"]))

/-- The rule of `nestedName`. -/
def nestingRules : Rules nestingScope :=
  ⟨[⟨(), nestedName⟩], 5⟩

/-- A name in parentheses, read off a text. -/
def nestedText : Grammar nestingScope .text String :=
  .overTokens (.ref ()) parentheses.tokenizer .blanks

/-- A text that ends before the parentheses are closed, seen from its second character. -/
def unclosed : State .text :=
  { input := ['x', ' ', '(', '(', 'a', ' '], index := 1 }

/-- The failure with which a run ends recoverably. -/
def Outcome.reason? : Outcome a α → Option Failure
  | fail .recoverable t => t.failure
  | _ => none

theorem Outcome.exists_of_reason? {outcome : Outcome a α} {failure : Failure}
    (h : outcome.reason? = some failure) : ∃ t, outcome = .fail .recoverable t := by
  unfold reason? at h
  split at h
  · exact ⟨_, rfl⟩
  · cases h

theorem blanks_accountable :
    (Grammar.optional (.blanks (S := nestingScope))).Throughout []
      fun part => part.grammar.Accountable :=
  .binary ⟨trivial, trivial⟩ rfl
    (.unary ⟨trivial, trivial⟩ rfl (.leaf ⟨.pattern _ .blanks, trivial⟩ rfl))
    (.leaf ⟨trivial, trivial⟩ rfl)

theorem nestedText_accountable :
    nestedText.Throughout nestingRules.bindings fun part => part.grammar.Accountable := by
  refine Grammar.throughout_of_bindings (fun binding hbinding => ?_) ?_
  · rw [nestingRules, List.mem_singleton] at hbinding
    subst hbinding
    exact .binary ⟨trivial, trivial⟩ rfl (.leaf ⟨trivial, trivial⟩ rfl)
      (.binary ⟨trivial, trivial⟩ rfl
        (.binary ⟨trivial, trivial⟩ rfl (.leaf ⟨trivial, trivial⟩ rfl)
          (.leaf ⟨trivial, trivial⟩ rfl))
        (.leaf ⟨trivial, trivial⟩ rfl))
  · refine .binary ⟨⟨_, _, _, rfl, rfl, .registry _⟩, trivial⟩ rfl ?_ ?_
    · exact .binary ⟨trivial, trivial⟩ rfl (.leaf ⟨trivial, trivial⟩ rfl)
        (.leaf ⟨trivial, trivial⟩ rfl)
    · exact .binary ⟨trivial, trivial⟩ rfl blanks_accountable
        (.unary ⟨trivial, trivial⟩ rfl (.binary ⟨trivial, trivial⟩ rfl
          (.unary ⟨trivial, trivial⟩ rfl (.leaf ⟨.pattern _ .identifier, trivial⟩ rfl))
          blanks_accountable))

/-- The reason for which an unclosed text is refused is past its last token. -/
theorem nestedText_respects :
    (nestedText.Throughout nestingRules.bindings fun part => part.grammar.Proper) ∧
    (nestedText.Throughout nestingRules.bindings fun part => part.grammar.Vocal) ∧
    unclosed.index ≤ unclosed.input.length ∧
    (nestingRules.parser nestedText unclosed).Respects unclosed ∧
    ∃ t failure, nestingRules.parser nestedText unclosed = .fail .recoverable t ∧
      t.failure = some failure ∧ unclosed.index ≤ failure.position := by
  have hproper : nestedText.Throughout nestingRules.bindings fun part => part.grammar.Proper :=
    fun part hpart => (nestedText_accountable part hpart).1
  have hvocal : nestedText.Throughout nestingRules.bindings fun part => part.grammar.Vocal :=
    fun part hpart => (nestedText_accountable part hpart).2
  have hindex : unclosed.index ≤ unclosed.input.length := by decide
  have hreason : (nestingRules.parser nestedText unclosed).reason? =
      some ⟨6, [")"], none, .endOfInput⟩ := by decide +kernel
  obtain ⟨t, ht⟩ := Outcome.exists_of_reason? hreason
  obtain ⟨failure, hfailure, hle⟩ :=
    (Rules.parser_respects nestingRules nestedText hproper unclosed hindex).2 hvocal t ht
  exact ⟨hproper, hvocal, hindex, (Rules.parser_respects _ _ hproper _ hindex).1, t, failure, ht,
    hfailure, hle⟩

end

end Descent
