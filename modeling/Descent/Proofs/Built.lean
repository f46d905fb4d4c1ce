import Descent.Grammar.Registry
import Descent.Grammar.Tokenizer
import Descent.Proofs.Parts
import Descent.Proofs.Pattern.Extent

/-!
Grammars as the library puts them together.

A `Grammar` may hold any matcher and any lexer. The library itself only scans with its own patterns
or with a matcher that stays within the text, and reads tokens off a lexer over its own tokenizers;
`Proper` says so of one grammar, and `Throughout` carries it to all that a grammar uses.
-/

namespace Descent.Grammar

variable {S : Scope} {a : Alphabet} {α : Type}

/-- A matcher that ends between where it is tried and the end of the text. -/
def StaysWithin (matcher : List Char → Nat → Option Nat) : Prop :=
  ∀ text start stop, start ≤ text.length → matcher text start = some stop →
    start ≤ stop ∧ stop ≤ text.length

/-- The scanners: the patterns of the library, quoted text, and patterns given from outside. -/
inductive IsScanner : {α : Type} → Grammar S .text α → Prop where
  | pattern {p : Pattern} (name : String) (hp : p.Standard) : IsScanner (pattern p name)
  | charLiteral (quote : Char) : IsScanner (charLiteral quote)
  | stringLiteral (quote : Char) : IsScanner (stringLiteral quote)
  | custom {matcher : List Char → Nat → Option Nat} (name : String)
      (hmatcher : StaysWithin matcher) :
      IsScanner (scan (fun text start => (matcher text start).map (·, ())) name)

/-- The tokenizers for literals with one form; `longTokenizer` is a choice of three of them. -/
def literalTokenizers (quote : Char) : List (Grammar S .text Token) :=
  [identifierTokenizer, integerTokenizer, decimalTokenizer, scientificTokenizer, hexTokenizer,
    octalTokenizer, decimalIntegerTokenizer, charLiteralTokenizer quote,
    stringLiteralTokenizer quote]

/-- The tokenizers: for literals, for the terminals of a vocabulary, and what is composed of them. -/
inductive IsTokenizer : Grammar S .text Token → Prop where
  | literal (quote : Char) {g : Grammar S .text Token} (hg : g ∈ literalTokenizers quote) :
      IsTokenizer g
  | registry (registry : Registry S) : IsTokenizer registry.tokenizer
  | orElse {p q : Grammar S .text Token} (hp : IsTokenizer p) (hq : IsTokenizer q) :
      IsTokenizer (orElse p q)
  | choice {gs : List (Grammar S .text Token)} (hgs : ∀ g ∈ gs, IsTokenizer g) :
      IsTokenizer (choice gs)
  | label (name : String) {p : Grammar S .text Token} (hp : IsTokenizer p) :
      IsTokenizer (label name p)
  | traced (name : String) (render : Token → String) {p : Grammar S .text Token}
      (hp : IsTokenizer p) : IsTokenizer (traced name render p)
  | atomic {p : Grammar S .text Token} (hp : IsTokenizer p) : IsTokenizer (atomic p)

theorem IsTokenizer.long : IsTokenizer (longTokenizer (S := S)) := by
  have hliteral : ∀ g ∈ literalTokenizers (S := S) '"', IsTokenizer g := fun g => .literal '"'
  exact .label _ (.orElse (.orElse (hliteral _ (by simp [literalTokenizers]))
    (hliteral _ (by simp [literalTokenizers]))) (hliteral _ (by simp [literalTokenizers])))

/-- What holds of alternatives and passes to a choice of two holds of a choice of any number. -/
theorem choice_induction {motive : Grammar S a α → Prop}
    (none : motive (refuse "no alternatives to choose from"))
    (orElse : ∀ p q, motive p → motive q → motive (orElse p q)) {gs : List (Grammar S a α)}
    (hgs : ∀ g ∈ gs, motive g) : motive (choice gs) := by
  cases gs with
  | nil => exact none
  | cons p rest =>
    have hp : motive p := hgs p (.head _)
    have hrest : ∀ g ∈ rest, motive g := fun g hg => hgs g (.tail _ hg)
    clear hgs
    unfold choice
    induction rest generalizing p with
    | nil => exact hp
    | cons q rest ih =>
      exact ih (Grammar.orElse p q) (orElse p q hp (hrest q (.head _)))
        fun g hg => hrest g (.tail _ hg)

theorem exists_tokenize_of_mem {quote : Char} {g : Grammar S .text Token}
    (hg : g ∈ literalTokenizers quote) :
    ∃ (α : Type) (kind : α → List Char → TokenKind) (p : Grammar S .text α),
      g = tokenize kind p := by
  simp only [literalTokenizers, List.mem_cons, List.not_mem_nil, or_false] at hg
  rcases hg with rfl | rfl | rfl | rfl | rfl | rfl | rfl | rfl | rfl <;> exact ⟨_, _, _, rfl⟩

/-- A grammar whose outermost part is as the library makes it. -/
def Proper : {a : Alphabet} → {α : Type} → Grammar S a α → Prop
  | _, _, scan matcher name => (scan (S := S) matcher name).IsScanner
  | _, _, staged grammar found => ∃ g tokenizer delimiter, grammar = whole g ∧
      found = lexer tokenizer delimiter ∧ tokenizer.IsTokenizer
  | _, _, _ => True

/-- If a grammar has two stages, the first is the lexer of a tokenizer of the library, and the second
takes all its tokens. -/
def LexesProperly : {a : Alphabet} → {α : Type} → Grammar S a α → Prop
  | _, _, staged grammar found => ∃ g tokenizer delimiter, grammar = whole g ∧
      found = lexer tokenizer delimiter ∧ tokenizer.IsTokenizer
  | _, _, _ => True

theorem Proper.lexesProperly {g : Grammar S a α} (hg : g.Proper) : g.LexesProperly := by
  cases g with
  | staged grammar found => exact hg
  | _ => trivial

/-- A grammar that is not about text neither scans nor has two stages. -/
theorem Proper.of_ne_text (ha : a ≠ .text) (g : Grammar S a α) : g.Proper := by
  cases g with
  | scan | staged => exact absurd rfl ha
  | _ => trivial

/-- A grammar whose outermost part does not fail without a word. -/
def Vocal : {a : Alphabet} → {α : Type} → Grammar S a α → Prop
  | _, _, silent _ => False
  | _, _, _ => True

/-- Whatever a scanner asks, the answer lies between the place and the end of the text. -/
theorem IsScanner.bounds {matcher : List Char → Nat → Option (Nat × α)} {name : String}
    (h : (scan (S := S) matcher name).IsScanner) {text : List Char} {start stop : Nat} {value : α}
    (hstart : start ≤ text.length) (hmatch : matcher text start = some (stop, value)) :
    start ≤ stop ∧ stop ≤ text.length := by
  generalize hg : scan (S := S) matcher name = g at h
  cases h with
  | pattern name' hp =>
    cases hg
    obtain ⟨stop', hstop, heq⟩ := Option.map_eq_some_iff.mp hmatch
    cases heq
    exact hp.fits.endAt_bounds hstop
  | charLiteral quote =>
    cases hg
    dsimp only at hmatch
    split at hmatch
    · rename_i hquoted
      cases hmatch
      exact Pattern.quotedEndAt_bounds hquoted
    · cases hmatch
  | stringLiteral quote =>
    cases hg
    obtain ⟨⟨stop', content⟩, hquoted, heq⟩ := Option.map_eq_some_iff.mp hmatch
    cases heq
    exact Pattern.quotedEndAt_bounds hquoted
  | custom name' hmatcher =>
    cases hg
    obtain ⟨stop', hstop, heq⟩ := Option.map_eq_some_iff.mp hmatch
    cases heq
    exact hmatcher text start stop hstart hstop

end Descent.Grammar
