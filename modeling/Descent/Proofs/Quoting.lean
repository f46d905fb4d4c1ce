import Descent.Proofs.Contract
import Descent.Proofs.Pattern.Extent
import Descent.Proofs.Reading

/-!
Quoted text and what it stands for.

Between the quotes stand items: a character, a pair of quotes, or a backslash and a character
(`Pattern.Item`). How far an item goes is settled by its first characters, so that they are read one
after another (`Pattern.quotedBody_item`), and the first quote that is neither half of a pair nor behind
a backslash closes the text. What `Pattern.enquote` writes for a character is read as that character,
also where the quote is a backslash and nothing is written after one (`Pattern.quotedBody_guardChar`).
Both together say what the scanner of quoted texts finds (`Rules.stringLiteral_quoted`).
-/

namespace Descent.Pattern

/-! ## How characters are written between quotes -/

/-- What a character stands for after a backslash. -/
inductive Escapes : Char → Char → Prop where
  | newline : Escapes 'n' '\n'
  | carriageReturn : Escapes 'r' '\r'
  | tab : Escapes 't' '\t'
  | null : Escapes '0' '\x00'
  | itself {c : Char} (h : c ∉ ['n', 'r', 't', '0']) : Escapes c c

/-- A piece of quoted text and the character it is written for. -/
inductive Item (quote : Char) : List Char → Char → Prop where
  | plain {c : Char} (notQuote : c ≠ quote) (notBackslash : c ≠ '\\') : Item quote [c] c
  | doubled : Item quote [quote, quote] quote
  | escaped {c d : Char} (h : Escapes c d) : Item quote ['\\', c] d

/-- Pieces of quoted text one after another, and the text they are written for. -/
inductive Items (quote : Char) : List Char → List Char → Prop where
  | nil : Items quote [] []
  | cons {piece rest content : List Char} {c : Char} (first : Item quote piece c)
      (more : Items quote rest content) : Items quote (piece ++ rest) (c :: content)

theorem escapes_iff {c d : Char} : Escapes c d ↔ unescape c = d := by
  constructor
  · intro h
    cases h with
    | newline | carriageReturn | tab | null => rfl
    | itself h =>
      simp only [List.mem_cons, List.not_mem_nil, or_false, not_or] at h
      unfold unescape
      split <;> simp_all
  · rintro rfl
    unfold unescape
    split
    · exact .newline
    · exact .carriageReturn
    · exact .tab
    · exact .null
    · exact .itself (by simp_all)

/-! ## Step by step -/

section

variable {quote c d : Char} {text : List Char}

theorem quotedBody_closed (h : text.head? ≠ some quote) :
    quotedBody quote (quote :: text) = some (1, []) := by
  cases text with
  | nil => simp [quotedBody]
  | cons d rest =>
    have hd : d ≠ quote := fun heq => h (congrArg some heq)
    simp [quotedBody, hd]

theorem quotedBody_plain (hquote : c ≠ quote) (hbackslash : c ≠ '\\') :
    quotedBody quote (c :: text) =
      (quotedBody quote text).map fun found => (1 + found.1, c :: found.2) := by
  cases text with
  | nil => simp [quotedBody, hquote]
  | cons d rest => simp [quotedBody, hquote, hbackslash]

theorem quotedBody_doubled :
    quotedBody quote (quote :: quote :: text) =
      (quotedBody quote text).map fun found => (2 + found.1, quote :: found.2) := by
  simp [quotedBody]

theorem quotedBody_escaped (hquote : quote ≠ '\\') :
    quotedBody quote ('\\' :: c :: text) =
      (quotedBody quote text).map fun found => (2 + found.1, unescape c :: found.2) := by
  simp [quotedBody, hquote.symm]

theorem quotedBody_item {piece : List Char} (hquote : quote ≠ '\\') (h : Item quote piece c) :
    quotedBody quote (piece ++ text) =
      (quotedBody quote text).map fun found => (piece.length + found.1, c :: found.2) := by
  cases h with
  | plain notQuote notBackslash => exact quotedBody_plain notQuote notBackslash
  | doubled => exact quotedBody_doubled
  | escaped h =>
    cases escapes_iff.mp h
    exact quotedBody_escaped hquote

end

/-! ## Up to the closing quote -/

/-- Items stand at the front of a text, then a quote with no other quote behind it, and all of that
takes so many characters. -/
def Closes (quote : Char) (text : List Char) (n : Nat) (content : List Char) : Prop :=
  ∃ body rest, text = body ++ quote :: rest ∧ Items quote body content ∧
    rest.head? ≠ some quote ∧ n = body.length + 1

section

variable {quote c : Char} {text piece content : List Char} {n : Nat}

theorem Closes.here (h : text.head? ≠ some quote) : Closes quote (quote :: text) 1 [] :=
  ⟨[], text, rfl, .nil, h, rfl⟩

theorem Closes.item (first : Item quote piece c) (h : Closes quote text n content) :
    Closes quote (piece ++ text) (piece.length + n) (c :: content) := by
  obtain ⟨body, rest, rfl, hitems, hrest, rfl⟩ := h
  refine ⟨piece ++ body, rest, (List.append_assoc ..).symm, .cons first hitems, hrest, ?_⟩
  rw [List.length_append, Nat.add_assoc]

theorem closes_of_quotedBody (h : quotedBody quote text = some (n, content)) :
    Closes quote text n content := by
  fun_induction quotedBody quote text generalizing n content with
  | case1 => cases h
  | case2 => cases h; exact .here (by simp)
  | case3 => cases h
  | case4 rest ih =>
    obtain ⟨⟨k, inner⟩, hk, heq⟩ := Option.map_eq_some_iff.mp h
    cases heq
    exact (ih hk).item .doubled
  | case5 d rest hd =>
    cases h
    exact .here fun heq => hd (Option.some.inj heq)
  | case6 d rest hquote ih =>
    obtain ⟨⟨k, inner⟩, hk, heq⟩ := Option.map_eq_some_iff.mp h
    cases heq
    exact (ih hk).item (.escaped (escapes_iff.mpr rfl))
  | case7 c d rest hquote hbackslash ih =>
    obtain ⟨⟨k, inner⟩, hk, heq⟩ := Option.map_eq_some_iff.mp h
    cases heq
    exact (ih hk).item (.plain hquote hbackslash)

/-- The items are read one by one: how far each of them goes is settled by its first characters. -/
theorem quotedBody_eq_some_iff (hquote : quote ≠ '\\') :
    quotedBody quote text = some (n, content) ↔ Closes quote text n content := by
  refine ⟨closes_of_quotedBody, ?_⟩
  rintro ⟨body, rest, rfl, hitems, hrest, rfl⟩
  induction hitems with
  | nil => exact quotedBody_closed hrest
  | cons first _ ih =>
    rw [List.append_assoc, quotedBody_item hquote first, ih, Option.map_some, List.length_append,
      Nat.add_assoc]

theorem quoted_eq_some_iff (hquote : quote ≠ '\\') : quoted quote text = some (n, content) ↔
    ∃ rest k, text = quote :: rest ∧ Closes quote rest k content ∧ n = 1 + k := by
  constructor
  · intro h
    cases text with
    | nil => cases h
    | cons c rest =>
      rw [quoted] at h
      split at h
      · rename_i hc
        obtain ⟨⟨k, inner⟩, hk, heq⟩ := Option.map_eq_some_iff.mp h
        cases heq
        exact ⟨rest, k, congrArg (· :: rest) hc, (quotedBody_eq_some_iff hquote).mp hk, rfl⟩
      · cases h
  · rintro ⟨rest, k, rfl, hcloses, rfl⟩
    rw [quoted, if_pos rfl, (quotedBody_eq_some_iff hquote).mpr hcloses, Option.map_some]

/-- Two quotes are the empty text, and one alone is none. -/
example : quoted '"' ['"', '"'] = some (2, []) ∧ quoted '"' ['"'] = none := ⟨rfl, rfl⟩

end

/-! ## Between two indices -/

/-- Between two indices of a text stand a quote, items and a quote again, and the text does not go on
with another quote. -/
structure Quotes (quote : Char) (text : List Char) (start stop : Nat) (content : List Char) :
    Prop where
  ordered : start ≤ stop
  within : stop ≤ text.length
  written : ∃ body, Items quote body content ∧
    (text.drop start).take (stop - start) = quote :: (body ++ [quote])
  ended : text[stop]? ≠ some quote

/-- That is how the rest of the text goes from the first index on. -/
theorem quotes_iff {quote : Char} {text : List Char} {start stop : Nat} {content : List Char} :
    Quotes quote text start stop content ↔ ∃ rest n, text.drop start = quote :: rest ∧
      Closes quote rest n content ∧ stop = start + (1 + n) := by
  constructor
  · rintro ⟨hordered, hwithin, ⟨body, hitems, htake⟩, hended⟩
    have hdrop : text.drop start = quote :: (body ++ quote :: text.drop stop) := by
      have hrest : (text.drop start).drop (stop - start) = text.drop stop := by
        rw [List.drop_drop, Nat.add_sub_cancel' hordered]
      rw [← List.take_append_drop (stop - start) (text.drop start), htake, hrest, List.cons_append,
        List.append_assoc, List.singleton_append]
    have hlength := congrArg List.length htake
    simp only [List.length_take, List.length_drop, List.length_cons, List.length_append,
      List.length_nil] at hlength
    refine ⟨_, body.length + 1, hdrop, ⟨body, text.drop stop, rfl, hitems, ?_, rfl⟩, by omega⟩
    rwa [List.head?_drop]
  · rintro ⟨_, _, hdrop, ⟨body, rest, rfl, hitems, hrest, rfl⟩, rfl⟩
    have hsplit : text.drop start = (quote :: (body ++ [quote])) ++ rest := by
      rw [hdrop, List.cons_append, List.append_assoc, List.singleton_append]
    have htaken : 1 + (body.length + 1) = (quote :: (body ++ [quote])).length := by
      rw [List.length_cons, List.length_append, List.length_singleton, Nat.add_comm]
    have hlength := congrArg List.length hsplit
    rw [List.length_drop, List.length_append, ← htaken] at hlength
    refine ⟨by omega, by omega, ⟨body, hitems, ?_⟩, ?_⟩
    · rw [Nat.add_sub_cancel_left, hsplit, htaken, List.take_left]
    · rwa [← List.getElem?_drop, hsplit, htaken, List.getElem?_append_right (Nat.le_refl _),
        Nat.sub_self, ← List.head?_eq_getElem?]

theorem quotedEndAt_eq_some_iff {quote : Char} (hquote : quote ≠ '\\') {text : List Char}
    {start stop : Nat} {content : List Char} :
    quotedEndAt quote text start = some (stop, content) ↔
      Quotes quote text start stop content := by
  rw [quotes_iff]
  constructor
  · intro h
    unfold quotedEndAt at h
    split at h
    · obtain ⟨⟨n, inner⟩, hn, heq⟩ := Option.map_eq_some_iff.mp h
      cases heq
      obtain ⟨rest, k, hdrop, hcloses, rfl⟩ := (quoted_eq_some_iff hquote).mp hn
      exact ⟨rest, k, hdrop, hcloses, rfl⟩
    · cases h
  · rintro ⟨rest, n, hdrop, hcloses, rfl⟩
    have hread : quoted quote (text.drop start) = some (1 + n, content) :=
      (quoted_eq_some_iff hquote).mpr ⟨rest, n, hdrop, hcloses, rfl⟩
    have hstart : start < text.length :=
      List.length_lt_of_drop_ne_nil fun hnil => List.cons_ne_nil _ _ (hdrop.symm.trans hnil)
    rw [quotedEndAt, if_pos (Nat.le_of_lt hstart), hread, Option.map_some]

/-! ## Written to be read -/

/-- A character as it is written between quotes: a quote and a backslash twice, any other once. -/
def guardChar (quote c : Char) : List Char :=
  if c = quote ∨ c = '\\' then [c, c] else [c]

/-- A text between quotes, with each quote and each backslash in it written twice. -/
def enquote (quote : Char) (content : List Char) : List Char :=
  quote :: (content.flatMap (guardChar quote) ++ [quote])

/-- This holds with a backslash as quote as well: it is a quote first. -/
theorem quotedBody_guardChar (quote c : Char) (text : List Char) :
    quotedBody quote (guardChar quote c ++ text) = (quotedBody quote text).map fun found =>
      ((guardChar quote c).length + found.1, c :: found.2) := by
  by_cases hquote : c = quote
  · subst hquote
    rw [guardChar, if_pos (.inl rfl)]
    exact quotedBody_doubled
  · by_cases hbackslash : c = '\\'
    · subst hbackslash
      rw [guardChar, if_pos (.inr rfl)]
      exact quotedBody_escaped (Ne.symm hquote)
    · rw [guardChar, if_neg (not_or.mpr ⟨hquote, hbackslash⟩)]
      exact quotedBody_plain hquote hbackslash

theorem quotedBody_guarded {quote : Char} {after : List Char} (hafter : after.head? ≠ some quote)
    (content : List Char) :
    quotedBody quote (content.flatMap (guardChar quote) ++ quote :: after) =
      some ((content.flatMap (guardChar quote)).length + 1, content) := by
  induction content with
  | nil => exact quotedBody_closed hafter
  | cons c content ih =>
    rw [List.flatMap_cons, List.append_assoc, quotedBody_guardChar, ih, Option.map_some,
      List.length_append, Nat.add_assoc]

theorem quoted_enquote {quote : Char} {after : List Char} (hafter : after.head? ≠ some quote)
    (content : List Char) :
    quoted quote (enquote quote content ++ after) =
      some ((enquote quote content).length, content) := by
  have hwritten : enquote quote content ++ after =
      quote :: (content.flatMap (guardChar quote) ++ quote :: after) := by
    rw [enquote, List.cons_append, List.append_assoc, List.singleton_append]
  have hlength : (enquote quote content).length =
      1 + ((content.flatMap (guardChar quote)).length + 1) := by
    rw [enquote, List.length_cons, List.length_append, List.length_singleton, Nat.add_comm]
  rw [hwritten, hlength, quoted, if_pos rfl, quotedBody_guarded hafter, Option.map_some]

theorem quotedEndAt_enquote {quote : Char} {after text content : List Char} {start : Nat}
    (h : text.drop start = enquote quote content ++ after) (hafter : after.head? ≠ some quote) :
    quotedEndAt quote text start = some (start + (enquote quote content).length, content) := by
  have hstart : start < text.length :=
    List.length_lt_of_drop_ne_nil fun hnil => List.cons_ne_nil _ _ (h.symm.trans hnil)
  rw [quotedEndAt, if_pos (Nat.le_of_lt hstart), h, quoted_enquote hafter, Option.map_some]

end Descent.Pattern

namespace Descent.Rules

open Pattern

variable {S : Scope} (rules : Rules S)

theorem stringLiteral_ok {quote : Char} {s : State .text} {stop : Nat} {content : List Char}
    (h : quotedEndAt quote s.input s.index = some (stop, content)) :
    rules.parser (.stringLiteral quote) s = .ok (String.ofList content) (s.moveTo stop) := by
  have hrun : rules.parser (.stringLiteral quote) s = Parser.scan
    (fun text start => (quotedEndAt quote text start).map fun found =>
      (found.1, String.ofList found.2)) "string literal" s := rfl
  simp only [hrun, Parser.scan, h, Option.map_some, if_pos (quotedEndAt_bounds h)]

/-- **Quoted text is read as it is written.** With any quote but a backslash, a quoted text is found
from an index on just where one stands, and nothing where none does. With every quote, what is
written between quotes with each quote and each backslash twice is read back, up to the closing quote,
unless another quote follows. -/
theorem stringLiteral_quoted (quote : Char) :
    (quote ≠ '\\' → ∀ text start,
      (∀ stop content, quotedEndAt quote text start = some (stop, content) ↔
        Quotes quote text start stop content) ∧
      (quotedEndAt quote text start = none ↔ ∀ stop content,
        ¬ Quotes quote text start stop content)) ∧
    ∀ (s : State .text) (content : String) (after : List Char),
      s.rest = enquote quote content.toList ++ after → after.head? ≠ some quote →
      rules.parser (.stringLiteral quote) s =
        .ok content (s.moveTo (s.index + (enquote quote content.toList).length)) := by
  refine ⟨fun hquote text start => ?_, fun s content after hrest hafter => ?_⟩
  · have hiff stop content : quotedEndAt quote text start = some (stop, content) ↔
        Quotes quote text start stop content :=
      quotedEndAt_eq_some_iff hquote
    refine ⟨hiff, ?_⟩
    rw [Option.eq_none_iff_forall_ne_some, Prod.forall]
    exact forall_congr' fun stop => forall_congr' fun content => not_congr (hiff stop content)
  · rw [rules.stringLiteral_ok (quotedEndAt_enquote hrest hafter), String.ofList_toList]

/-- A quote in a quoted text is written twice or after a backslash; a backslash, where that is the
quote, is written twice. -/
theorem apostrophe_and_backslash_quoted :
    '\'' ≠ '\\' ∧ Quotes '\'' "'it''s\\n'!".toList 0 9 "it's\n".toList ∧
    (∀ stop content, ¬ Quotes '\'' "'it\\'".toList 0 stop content) ∧
    nestingRules.parser (.stringLiteral '\\') { input := "\\a\\\\\\".toList } =
      .ok "a\\" { input := "\\a\\\\\\".toList, index := 5, mark := 5 } := by
  have hquote : '\'' ≠ '\\' := by decide
  obtain ⟨hquoted, -⟩ := nestingRules.stringLiteral_quoted '\''
  obtain ⟨-, hback⟩ := nestingRules.stringLiteral_quoted '\\'
  refine ⟨hquote, ?_, ?_, ?_⟩
  · exact ((hquoted hquote _ 0).1 9 _).mp (by decide)
  · exact (hquoted hquote _ 0).2.mp (by decide)
  · exact hback { input := "\\a\\\\\\".toList } "a\\" [] (by decide) (by decide)

end Descent.Rules
