import Descent.Grammar.TokenLiteral
import Descent.Proofs.Tokenizing

/-!
Grammars that do not care where they are.

When a text is put in front of another one, what stood at an index of that one now stands further on,
and so do the tokens cut out of it. A grammar is shiftable (`Grammar.Shiftable`) if what is given with
it, the classes, the matchers, the constants and the functions on values, does not depend on where
something stands: it does the same to what has been shifted, and its result is shifted alike. What a
shift does to values of a type comes with the grammar: to a token it does `Token.shift`, and to a
list what it does to every element. The scanners of the library are shiftable, and so are its
tokenizers and its grammars for single tokens.
-/

namespace Descent

/-! ## What is shifted -/

/-- The token so much further on. -/
def Token.shift (n : Nat) (token : Token) : Token :=
  { token with start := n + token.start, stop := n + token.stop }

/-- The failure so much further on. -/
def Failure.shift (n : Nat) (failure : Failure) : Failure :=
  { failure with position := n + failure.position }

namespace Alphabet

/-- How far places move in an input when the text moves: in the text as far, and not at all in a list
of tokens. -/
def offset (n : Nat) : Alphabet → Nat
  | text => n
  | _ => 0

/-- A unit of an input when the text moves. -/
def shiftItem (n : Nat) : (a : Alphabet) → a.Item → a.Item
  | tokens, token => token.shift n
  | text, c => c
  | words, word => word

/-- An input when a text is put in front. -/
def shiftInput (before : List Char) : (a : Alphabet) → List a.Item → List a.Item
  | text, input => before ++ input
  | tokens, input => input.map (Token.shift before.length)
  | words, input => input

variable {a : Alphabet} (before : List Char) (input : List a.Item)

theorem length_shiftInput :
    (a.shiftInput before input).length = a.offset before.length + input.length := by
  cases a with
  | text => exact List.length_append
  | tokens => exact (List.length_map _).trans (Nat.zero_add _).symm
  | words => exact (Nat.zero_add _).symm

theorem getElem?_shiftInput (i : Nat) :
    (a.shiftInput before input)[a.offset before.length + i]? =
      input[i]?.map (a.shiftItem before.length) := by
  cases a with
  | text =>
    have hright : (before ++ input)[before.length + i]? = input[i]? := by
      rw [List.getElem?_append_right (Nat.le_add_right _ _), Nat.add_sub_cancel_left]
    exact hright.trans Option.map_id'.symm
  | tokens =>
    have hmap : (input.map (Token.shift before.length))[i]? =
        input[i]?.map (Token.shift before.length) := List.getElem?_map
    show (input.map (Token.shift before.length))[0 + i]? = _
    rw [Nat.zero_add, hmap]
    rfl
  | words =>
    show input[0 + i]? = _
    rw [Nat.zero_add]
    exact Option.map_id'.symm

theorem describe_shiftItem (n : Nat) (unit : a.Item) :
    a.describe (a.shiftItem n unit) = a.describe unit := by
  cases a <;> rfl

end Alphabet

/-! ## Grammars -/

namespace Grammar

variable {S : Scope}

/-- A grammar to which it makes no difference where its input stands, given what a shift does to the
values of the grammars that references stand for, and what it does to the values of this one. -/
inductive Shiftable (moves : (x : S.Ref) → Nat → S.Value x → S.Value x) :
    {a : Alphabet} → {α : Type} → (Nat → α → α) → Grammar S a α → Prop where
  | item {a : Alphabet} {α : Type} {move : Nat → α → α} {extract : a.Item → Option α}
      (names : List String)
      (h : ∀ n unit, extract (a.shiftItem n unit) = (extract unit).map (move n)) :
      Shiftable moves move (item extract names)
  | atEnd {a : Alphabet} : Shiftable moves (fun _ x => x) (atEnd (a := a))
  | pure {a : Alphabet} {α : Type} {move : Nat → α → α} {value : α}
      (h : ∀ n, move n value = value) : Shiftable moves move (pure (a := a) value)
  | refuse {a : Alphabet} {α : Type} (move : Nat → α → α) (message : String) :
      Shiftable moves move (refuse (a := a) message)
  | silent {a : Alphabet} {α : Type} (move : Nat → α → α) (severity : Severity) :
      Shiftable moves move (silent (a := a) severity)
  | scan {α : Type} {move : Nat → α → α} {matcher : List Char → Nat → Option (Nat × α)}
      (name : String)
      (h : ∀ before text start, start ≤ text.length →
        matcher (before ++ text) (before.length + start) =
          (matcher text start).map fun found =>
            (before.length + found.1, move before.length found.2)) :
      Shiftable moves move (scan matcher name)
  | map {a : Alphabet} {α β : Type} {move : Nat → α → α} {move' : Nat → β → β} {f : α → β}
      {p : Grammar S a α} (h : ∀ n x, f (move n x) = move' n (f x)) (hp : Shiftable moves move p) :
      Shiftable moves move' (map f p)
  | seqWith {a : Alphabet} {α β γ : Type} {move : Nat → α → α} {move' : Nat → β → β}
      {move'' : Nat → γ → γ} {f : α → β → γ} {p : Grammar S a α} {q : Grammar S a β}
      (h : ∀ n x y, f (move n x) (move' n y) = move'' n (f x y)) (hp : Shiftable moves move p)
      (hq : Shiftable moves move' q) : Shiftable moves move'' (seqWith f p q)
  | orElse {a : Alphabet} {α : Type} {move : Nat → α → α} {p q : Grammar S a α}
      (hp : Shiftable moves move p) (hq : Shiftable moves move q) :
      Shiftable moves move (orElse p q)
  | atomic {a : Alphabet} {α : Type} {move : Nat → α → α} {p : Grammar S a α}
      (hp : Shiftable moves move p) : Shiftable moves move (atomic p)
  | peek {a : Alphabet} {α : Type} {move : Nat → α → α} {p : Grammar S a α}
      (hp : Shiftable moves move p) : Shiftable moves move (peek p)
  | notFollowedBy {a : Alphabet} {α : Type} {move : Nat → α → α} {p : Grammar S a α}
      (name : String) (hp : Shiftable moves move p) :
      Shiftable moves (fun _ x => x) (notFollowedBy p name)
  | many {a : Alphabet} {α : Type} {move : Nat → α → α} {p : Grammar S a α}
      (hp : Shiftable moves move p) : Shiftable moves (fun n => List.map (move n)) (many p)
  | label {a : Alphabet} {α : Type} {move : Nat → α → α} {p : Grammar S a α} (name : String)
      (hp : Shiftable moves move p) : Shiftable moves move (label name p)
  | traced {a : Alphabet} {α : Type} {move : Nat → α → α} {p : Grammar S a α} (name : String)
      (render : α → String) (hp : Shiftable moves move p) :
      Shiftable moves move (traced name render p)
  | spanned {α β : Type} {move : Nat → α → α} {move' : Nat → β → β}
      {f : α → Nat → Nat → List Char → β} {p : Grammar S .text α}
      (h : ∀ n x start stop text,
        f (move n x) (n + start) (n + stop) text = move' n (f x start stop text))
      (hp : Shiftable moves move p) : Shiftable moves move' (spanned f p)
  | ref (x : S.Ref) : Shiftable moves (moves x) (ref x)
  | staged {α : Type} {move : Nat → α → α} {grammar : Grammar S .tokens α}
      {lexer : Grammar S .text (List Token)} (hgrammar : Shiftable moves move grammar)
      (hlexer : Shiftable moves (fun n => List.map (Token.shift n)) lexer) :
      Shiftable moves move (staged grammar lexer)
  | terminal (lexicon : Lexicon) {move : Nat → Unit → Unit} {words : Grammar S .text Unit}
      (hwords : Shiftable moves move words) :
      Shiftable moves Token.shift (terminal lexicon words)

namespace Shiftable

variable {moves : (x : S.Ref) → Nat → S.Value x → S.Value x} {a : Alphabet} {α β γ : Type}
  {move : Nat → α → α} {move' : Nat → β → β}

/-! ## Grammars made of grammars -/

section

variable {p : Grammar S a α} {q : Grammar S a β}

theorem seq (hp : Shiftable moves move p) (hq : Shiftable moves move' q) :
    Shiftable moves (fun n => Prod.map (move n) (move' n)) (seq p q) :=
  .seqWith (fun _ _ _ => rfl) hp hq

theorem thenSkip (hp : Shiftable moves move p) (hq : Shiftable moves move' q) :
    Shiftable moves move (thenSkip p q) :=
  .seqWith (fun _ _ _ => rfl) hp hq

theorem skipThen (hp : Shiftable moves move p) (hq : Shiftable moves move' q) :
    Shiftable moves move' (skipThen p q) :=
  .seqWith (fun _ _ _ => rfl) hp hq

theorem whole (hp : Shiftable moves move p) : Shiftable moves move (whole p) :=
  hp.thenSkip .atEnd

theorem optional (hp : Shiftable moves move p) :
    Shiftable moves (fun n => Option.map (move n)) (optional p) :=
  .orElse (.map (fun _ _ => rfl) hp) (.pure fun _ => rfl)

theorem choice {gs : List (Grammar S a α)} (hgs : ∀ g ∈ gs, Shiftable moves move g) :
    Shiftable moves move (choice gs) :=
  choice_induction (.refuse move _) (fun _ _ => .orElse) hgs

end

/-! ## Scanners -/

/-- What is made of a character is the same wherever it stands. -/
theorem character (extract : Alphabet.text.Item → Option α) (names : List String) :
    Shiftable moves (fun _ x => x) (Grammar.item (S := S) extract names) :=
  .item names fun _ _ => Option.map_id'.symm

/-- So is what a matcher finds that only looks at the text from its place on: it finds there what it
finds at the beginning of the rest. -/
theorem ofRest {matcher : List Char → Nat → Option (Nat × α)} (name : String)
    (h : ∀ text start, start ≤ text.length →
      matcher text start =
        (matcher (text.drop start) 0).map fun found => (start + found.1, found.2)) :
    Shiftable moves (fun _ x => x) (Grammar.scan (S := S) matcher name) := by
  refine .scan name fun before text start hstart => ?_
  have hstart' : before.length + start ≤ (before ++ text).length := by
    rw [List.length_append]
    exact Nat.add_le_add_left hstart _
  rw [h _ _ hstart', h _ _ hstart, List.drop_length_add_append, Option.map_map]
  cases matcher (text.drop start) 0 with
  | none => rfl
  | some found =>
    obtain ⟨n, x⟩ := found
    simp only [Option.map_some, Function.comp_apply, Nat.add_assoc]

theorem pattern (p : Pattern) (name : String) :
    Shiftable moves (fun _ x => x) (pattern (S := S) p name) := by
  refine .ofRest name fun text start hstart => ?_
  rw [Pattern.endAt_of_le p hstart, Pattern.endAt_of_le p (Nat.zero_le _), List.drop_zero]
  simp [Function.comp_def]

/-- A quoted text is found at its place as at the beginning of the rest. -/
theorem quotedEndAt_drop (quote : Char) {text : List Char} {start : Nat}
    (h : start ≤ text.length) :
    Pattern.quotedEndAt quote text start =
      (Pattern.quotedEndAt quote (text.drop start) 0).map fun found =>
        (start + found.1, found.2) := by
  simp [Pattern.quotedEndAt, if_pos h]

theorem charLiteral (quote : Char) :
    Shiftable moves (fun _ x => x) (charLiteral (S := S) quote) := by
  refine .ofRest _ fun text start hstart => ?_
  rw [quotedEndAt_drop quote hstart]
  rcases Pattern.quotedEndAt quote (text.drop start) 0 with _ | ⟨n, _ | ⟨c, _ | ⟨d, rest⟩⟩⟩
  · rfl
  · rfl
  · rfl
  · rfl

theorem stringLiteral (quote : Char) :
    Shiftable moves (fun _ x => x) (stringLiteral (S := S) quote) := by
  refine .ofRest _ fun text start hstart => ?_
  rw [quotedEndAt_drop quote hstart, Option.map_map, Option.map_map]
  rfl

/-- The matched text is the same wherever it stands. -/
theorem source {p : Grammar S .text α} (hp : Shiftable moves move p) :
    Shiftable moves (fun _ x => x) (source p) :=
  .spanned (fun _ _ _ _ _ => rfl) hp

/-! ## Tokens -/

theorem tokenize {p : Grammar S .text α} {kind : α → List Char → TokenKind}
    (hkind : ∀ n x text, kind (move n x) text = kind x text) (hp : Shiftable moves move p) :
    Shiftable moves Token.shift (tokenize kind p) :=
  .spanned (fun n x start stop text => by rw [Token.shift, hkind]) hp

theorem literal {quote : Char} {g : Grammar S .text Token} (hg : g ∈ literalTokenizers quote) :
    Shiftable moves Token.shift g := by
  have ofPattern {kind : Unit → List Char → TokenKind} (p : Pattern) (name : String) :
      Shiftable moves Token.shift (Grammar.tokenize kind (Grammar.pattern p name)) :=
    .tokenize (fun _ _ _ => rfl) (.pattern p name)
  simp only [literalTokenizers, List.mem_cons, List.not_mem_nil, or_false] at hg
  rcases hg with rfl | rfl | rfl | rfl | rfl | rfl | rfl | rfl | rfl
  · exact ofPattern _ _
  · exact ofPattern _ _
  · exact ofPattern _ _
  · exact ofPattern _ _
  · exact ofPattern _ _
  · exact ofPattern _ _
  · exact ofPattern _ _
  · exact .tokenize (fun _ _ _ => rfl) (.charLiteral quote)
  · exact .tokenize (fun _ _ _ => rfl) (.stringLiteral quote)

/-- The tokenizers of the library are shiftable if their scanners of words are. -/
theorem of_isTokenizer {tokenizer : Grammar S .text Token} (h : tokenizer.IsTokenizer)
    (hwords : ∀ words ∈ tokenizer.wordScanners, ∃ move, Shiftable moves move words) :
    Shiftable moves Token.shift tokenizer := by
  induction h with
  | literal quote hg => exact .literal hg
  | registry registry =>
    obtain ⟨move, hmove⟩ := hwords _ (.head _)
    exact .terminal registry.lexicon hmove
  | orElse _ _ ihp ihq =>
    exact .orElse (ihp fun words h => hwords words (List.mem_append_left _ h))
      (ihq fun words h => hwords words (List.mem_append_right _ h))
  | choice _ ih =>
    exact .choice fun g hg => ih g hg fun words h => hwords words (wordScanners_subset_choice hg h)
  | label name _ ih => exact .label name (ih hwords)
  | traced name render _ ih => exact .traced name render (ih hwords)
  | atomic _ ih => exact .atomic (ih hwords)

theorem lexer {tokenizer : Grammar S .text Token} {delimiter : Grammar S .text Unit}
    {move : Nat → Unit → Unit} (htokenizer : Shiftable moves Token.shift tokenizer)
    (hdelimiter : Shiftable moves move delimiter) :
    Shiftable moves (fun n => List.map (Token.shift n)) (lexer tokenizer delimiter) :=
  hdelimiter.optional.skipThen (.many (htokenizer.thenSkip hdelimiter.optional))

theorem overTokens {grammar : Grammar S .tokens α} {tokenizer : Grammar S .text Token}
    {delimiter : Grammar S .text Unit} {moveDelimiter : Nat → Unit → Unit}
    (hgrammar : Shiftable moves move grammar) (htokenizer : Shiftable moves Token.shift tokenizer)
    (hdelimiter : Shiftable moves moveDelimiter delimiter) :
    Shiftable moves move (overTokens grammar tokenizer delimiter) :=
  .staged hgrammar.whole (htokenizer.lexer hdelimiter)

/-- What a token holds is the same wherever it stands. -/
theorem tokenOf (extract : TokenKind → Option α) (name : String) :
    Shiftable moves (fun _ x => x) (tokenOf (S := S) extract name) :=
  .item _ fun _ _ => Option.map_id'.symm

theorem fragment (tags : List String) :
    Shiftable moves (fun _ x => x) (fragment (S := S) tags) :=
  .item _ fun _ _ => Option.map_id'.symm

theorem registryToken (registry : Registry S) (names : List String) :
    Shiftable moves Token.shift (registry.token names) := by
  refine .item _ fun n token => ?_
  show (if token.reserved?.any _ then _ else _) = Option.map _ (if token.reserved?.any _ then _ else _)
  split <;> rfl

end Shiftable

end Grammar

end Descent
