import Descent.Grammar.Registry
import Descent.Grammar.Tokenizer
import Descent.Proofs.Pattern.Firm
import Descent.Proofs.Range

/-!
What a tokenizer makes of the rest of a text.

The tokenizer of a vocabulary and the one for integers look at nothing but what is left of the text.
A `Reader` says without a state what they make of it, and `Parser.Reads` that a parser does just
that. If no operator contains a blank, the reader of a vocabulary is firm (`Lexicon.firm_reader`):
neither the operator nor the word that it takes depends on what comes after a blank, and the winner
would win if there were nothing but it.
-/

namespace Descent

/-- What there is at the front of a text: how many characters it takes, and what it is. -/
abbrev Reader := List Char → Option (Nat × TokenKind)

namespace Reader

/-- What a pattern takes. -/
def ofPattern (p : Pattern) (kind : List Char → TokenKind) : Reader :=
  fun text => (p text).map fun n => (n, kind (text.take n))

/-- The second reader where the first one finds nothing. -/
def orElse (read read' : Reader) : Reader :=
  fun text => (read text).or (read' text)

/-- A reader that takes at least one character where it takes any. -/
def Advances (read : Reader) : Prop :=
  ∀ text n kind, read text = some (n, kind) → 0 < n

theorem firm_ofPattern {p : Pattern} (hp : Firm id p) (kind : List Char → TokenKind) :
    Firm Prod.fst (ofPattern p kind) where
  fits := by
    intro text x h
    obtain ⟨n, hn, rfl⟩ := Option.map_eq_some_iff.mp h
    exact hp.fits hn
  ends text rest hrest := by
    unfold ofPattern
    rw [hp.ends text hrest]
    refine Option.map_congr fun n hn => ?_
    have hle : n ≤ text.length := hp.fits hn
    rw [List.take_append_of_le_length hle]
  grows := by
    intro text x rest h
    obtain ⟨n, hn, -⟩ := Option.map_eq_some_iff.mp h
    rw [ofPattern, Option.isSome_map, hp.grows rest hn]
  keeps := by
    intro text x h
    obtain ⟨n, hn, rfl⟩ := Option.map_eq_some_iff.mp h
    have hkept : p (text.take n) = some n := hp.keeps hn
    rw [ofPattern, hkept, Option.map_some, List.take_take, Nat.min_self]

theorem advances_ofPattern {p : Pattern} (hp : p.Advances) (kind : List Char → TokenKind) :
    (ofPattern p kind).Advances := by
  intro text n kind' h
  obtain ⟨m, hm, heq⟩ := Option.map_eq_some_iff.mp h
  cases heq
  exact hp text n hm

/-- Where the first finds nothing, it would not with less to look at. -/
theorem firm_orElse {read read' : Reader} (h : Firm Prod.fst read) (h' : Firm Prod.fst read') :
    Firm Prod.fst (orElse read read') where
  fits := by
    intro text x hx
    rcases Option.or_eq_some_iff.mp hx with hfirst | ⟨-, hsecond⟩
    · exact h.fits hfirst
    · exact h'.fits hsecond
  ends text rest hrest := by rw [orElse, orElse, h.ends text hrest, h'.ends text hrest]
  grows := by
    intro text x rest hx
    rw [orElse, Option.isSome_or, Bool.or_eq_true]
    rcases Option.or_eq_some_iff.mp hx with hfirst | ⟨-, hsecond⟩
    · exact .inl (h.grows rest hfirst)
    · exact .inr (h'.grows rest hsecond)
  keeps := by
    intro text x hx
    rcases Option.or_eq_some_iff.mp hx with hfirst | ⟨hnone, hsecond⟩
    · rw [orElse, h.keeps hfirst, Option.some_or]
    · rw [orElse, h.none_take hnone, Option.none_or, h'.keeps hsecond]

theorem advances_orElse {read read' : Reader} (h : read.Advances) (h' : read'.Advances) :
    (orElse read read').Advances := by
  intro text n kind hx
  rcases Option.or_eq_some_iff.mp hx with hfirst | ⟨-, hsecond⟩
  · exact h text n kind hfirst
  · exact h' text n kind hsecond

/-- The reader that takes more, and the first one if neither does. -/
def longest (read read' : Reader) : Reader := fun text =>
  match read text, read' text with
  | some x, some y => if x.1 < y.1 then some y else some x
  | some x, none => some x
  | none, y => y

section

variable {read read' : Reader} {text : List Char} {x y : Nat × TokenKind}

theorem longest_of_none (h : read text = none) : longest read read' text = read' text := by
  simp only [longest, h]

theorem longest_first (h : read text = some x) (h' : ∀ y, read' text = some y → y.1 ≤ x.1) :
    longest read read' text = some x := by
  cases hy : read' text with
  | none => simp only [longest, h, hy]
  | some y => simp only [longest, h, hy, if_neg (Nat.not_lt.mpr (h' y hy))]

theorem longest_second (h : read' text = some y) (h' : ∀ x, read text = some x → x.1 < y.1) :
    longest read read' text = some y := by
  cases hx : read text with
  | none => rw [longest_of_none hx, h]
  | some x => simp only [longest, h, hx, if_pos (h' x hx)]

/-- One of the two wins, and nothing is found only where neither finds anything. -/
theorem longest_cases (read read' : Reader) (text : List Char) :
    (read text = none ∧ read' text = none ∧ longest read read' text = none) ∨
    (∃ x, read text = some x ∧ (∀ y, read' text = some y → y.1 ≤ x.1) ∧
      longest read read' text = some x) ∨
    ∃ y, read' text = some y ∧ (∀ x, read text = some x → x.1 < y.1) ∧
      longest read read' text = some y := by
  cases hx : read text with
  | none =>
    rw [longest_of_none hx]
    cases hy : read' text with
    | none => exact .inl ⟨rfl, rfl, rfl⟩
    | some y => exact .inr (.inr ⟨y, rfl, nofun, rfl⟩)
  | some x =>
    cases hy : read' text with
    | none => exact .inr (.inl ⟨x, rfl, nofun, by simp only [longest, hx, hy]⟩)
    | some y =>
      by_cases hlt : x.1 < y.1
      · refine .inr (.inr ⟨y, rfl, ?_, longest_second hy ?_⟩)
        · rintro _ ⟨⟩; exact hlt
        · rw [hx]; rintro _ ⟨⟩; exact hlt
      · refine .inr (.inl ⟨x, rfl, ?_, longest_first hx ?_⟩)
        · rintro _ ⟨⟩; exact Nat.le_of_not_lt hlt
        · rw [hy]; rintro _ ⟨⟩; exact Nat.le_of_not_lt hlt

end

/-- The second one wins again, by itself, if the first one takes no more where there is less. -/
theorem firm_longest {read read' : Reader} (h : Firm Prod.fst read) (h' : Firm Prod.fst read')
    (hmore : ∀ text x rest, read text = some x →
      ∃ y, read (text ++ rest) = some y ∧ x.1 ≤ y.1) :
    Firm Prod.fst (longest read read') where
  fits := by
    intro text x hx
    rcases longest_cases read read' text with
      ⟨-, -, hnone⟩ | ⟨y, hy, -, hfirst⟩ | ⟨y, hy, -, hsecond⟩
    · rw [hnone] at hx; cases hx
    · rw [hfirst] at hx; cases hx; exact h.fits hy
    · rw [hsecond] at hx; cases hx; exact h'.fits hy
  ends text rest hrest := by
    unfold longest
    rw [h.ends text hrest, h'.ends text hrest]
  grows := by
    intro text x rest hx
    rcases longest_cases read read' (text ++ rest) with
      ⟨hnone, hnone', -⟩ | ⟨y, -, -, hfirst⟩ | ⟨y, -, -, hsecond⟩
    · rw [longest_of_none (h.none_of_append hnone), h'.none_of_append hnone'] at hx
      cases hx
    · rw [hfirst]; rfl
    · rw [hsecond]; rfl
  keeps := by
    intro text x hx
    rcases longest_cases read read' text with
      ⟨-, -, hnone⟩ | ⟨y, hy, -, hfirst⟩ | ⟨y, hy, hlonger, hsecond⟩
    · rw [hnone] at hx; cases hx
    · rw [hfirst] at hx
      cases hx
      refine longest_first (h.keeps hy) fun other hother => ?_
      exact Nat.le_trans (h'.fits hother) (List.length_take_le _ _)
    · rw [hsecond] at hx
      cases hx
      refine longest_second (h'.keeps hy) fun other hother => ?_
      obtain ⟨z, hz, hle⟩ := hmore _ other (text.drop x.1) hother
      rw [List.take_append_drop] at hz
      exact Nat.lt_of_le_of_lt hle (hlonger z hz)

theorem advances_longest {read read' : Reader} (h : read.Advances) (h' : read'.Advances) :
    (longest read read').Advances := by
  intro text n kind hx
  rcases longest_cases read read' text with
    ⟨-, -, hnone⟩ | ⟨y, hy, -, hfirst⟩ | ⟨y, hy, -, hsecond⟩
  · rw [hnone] at hx; cases hx
  · rw [hfirst] at hx; cases hx; exact h text n kind hy
  · rw [hsecond] at hx; cases hx; exact h' text n kind hy

end Reader

/-! ## Operators and words -/

namespace Lexicon

/-- The longest operator. -/
def operatorReader (lexicon : Lexicon) : Reader :=
  fun text => (longestOperator? lexicon.operators text).map fun operator =>
    (operator.length, .reserved operator)

/-- The longer of an operator and a word, and on a tie the operator. -/
def reader (lexicon : Lexicon) (words : Pattern) : Reader :=
  .longest lexicon.operatorReader (.ofPattern words fun text => lexicon.wordKind (.ofList text))

/-- No operator contains a blank. -/
def Unbroken (lexicon : Lexicon) : Prop :=
  ∀ operator ∈ lexicon.operators, ∀ c ∈ operator.toList, Text.isBlank c = false

instance (lexicon : Lexicon) : Decidable lexicon.Unbroken :=
  have : DecidablePred fun operator : String => ∀ c ∈ operator.toList, Text.isBlank c = false :=
    fun operator => List.decidableBAll (fun c => Text.isBlank c = false) operator.toList
  List.decidableBAll _ lexicon.operators

variable {lexicon : Lexicon} {words : Pattern}

/-- What has no blanks and stands in front of a break stands before the break. -/
theorem prefix_append_breaks {operator text rest : List Char}
    (hoperator : ∀ c ∈ operator, Text.isBlank c = false) (hrest : Text.Breaks rest)
    (h : operator <+: text ++ rest) : operator <+: text := by
  rcases List.prefix_or_prefix_of_prefix h (List.prefix_append text rest) with hwithin | hbeyond
  · exact hwithin
  · obtain ⟨more, rfl⟩ := hbeyond
    cases more with
    | nil => exact ⟨[], by simp only [List.append_nil]⟩
    | cons c more =>
      obtain ⟨after, hafter⟩ := (List.prefix_append_right_inj text).mp h
      have hblank := hrest c (hafter ▸ rfl)
      rw [hoperator c (List.mem_append_right text (.head _))] at hblank
      cases hblank

/-- Only what stands at the front counts. -/
theorem longestOperator?_congr {operators : List String} {text text' : List Char}
    (h : ∀ operator ∈ operators, operator.toList <+: text ↔ operator.toList <+: text') :
    longestOperator? operators text = longestOperator? operators text' := by
  cases hfound : longestOperator? operators text' with
  | none =>
    refine longestOperator?_eq_none.mpr fun operator hmem hfront => ?_
    exact longestOperator?_eq_none.mp hfound operator hmem ((h operator hmem).mp hfront)
  | some found =>
    obtain ⟨hmem, hfront, hlongest⟩ := longestOperator?_longest hfound
    refine longestOperator?_eq_some hmem ((h found hmem).mpr hfront) fun other hother hother' => ?_
    exact hlongest other hother ((h other hother).mp hother')

/-- With more text behind, an operator at least as long is found. -/
theorem operatorReader_more (text : List Char) (x : Nat × TokenKind) (rest : List Char)
    (h : lexicon.operatorReader text = some x) :
    ∃ y, lexicon.operatorReader (text ++ rest) = some y ∧ x.1 ≤ y.1 := by
  obtain ⟨operator, hoperator, rfl⟩ := Option.map_eq_some_iff.mp h
  obtain ⟨hmem, hfront, -⟩ := longestOperator?_longest hoperator
  have hfront' : operator.toList <+: text ++ rest := hfront.trans (List.prefix_append text rest)
  cases hfound : longestOperator? lexicon.operators (text ++ rest) with
  | none => exact absurd hfront' (longestOperator?_eq_none.mp hfound operator hmem)
  | some found =>
    refine ⟨(found.length, .reserved found), by rw [operatorReader, hfound, Option.map_some], ?_⟩
    exact (longestOperator?_longest hfound).2.2 operator hmem hfront'

theorem firm_operatorReader (hunbroken : lexicon.Unbroken) :
    Firm Prod.fst lexicon.operatorReader where
  fits := by
    intro text x h
    obtain ⟨operator, hoperator, rfl⟩ := Option.map_eq_some_iff.mp h
    exact longestOperator?_length_le hoperator
  ends text rest hrest := by
    unfold operatorReader
    rw [longestOperator?_congr fun operator hmem => ?_]
    exact ⟨prefix_append_breaks (hunbroken operator hmem) hrest,
      fun h => h.trans (List.prefix_append text rest)⟩
  grows := by
    intro text x rest h
    obtain ⟨y, hy, -⟩ := operatorReader_more text x rest h
    rw [hy]
    rfl
  keeps := by
    intro text x h
    obtain ⟨operator, hoperator, rfl⟩ := Option.map_eq_some_iff.mp h
    obtain ⟨hmem, hfront, hlongest⟩ := longestOperator?_longest hoperator
    have hkept : longestOperator? lexicon.operators (text.take operator.length) = some operator := by
      refine longestOperator?_eq_some hmem ?_ fun other hother hother' => ?_
      · exact List.prefix_take_iff.mpr ⟨hfront, Nat.le_of_eq String.length_toList⟩
      · exact hlongest other hother (hother'.trans (List.take_prefix _ _))
    rw [operatorReader, hkept, Option.map_some]

theorem firm_reader (hunbroken : lexicon.Unbroken) (hwords : Firm id words) :
    Firm Prod.fst (lexicon.reader words) :=
  Reader.firm_longest (firm_operatorReader hunbroken) (Reader.firm_ofPattern hwords _)
    operatorReader_more

theorem advances_reader (lexicon : Lexicon) (hwords : words.Advances) :
    (lexicon.reader words).Advances := by
  refine Reader.advances_longest (fun text n kind h => ?_) (Reader.advances_ofPattern hwords _)
  obtain ⟨operator, hoperator, heq⟩ := Option.map_eq_some_iff.mp h
  cases heq
  exact lexicon.operator_length_pos (longestOperator?_longest hoperator).1

end Lexicon

/-! ## Parsers that read -/

/-- What is left of a text. -/
def State.rest (s : State .text) : List Char :=
  s.input.drop s.index

/-- What is left once the place is set back. -/
theorem State.rest_restore {s t : State .text} (hinput : t.input = s.input) :
    (t.restore s.index).rest = s.rest := by
  rw [rest, rest, input_restore, index_restore, hinput]

/-- What is left once characters have been taken. -/
theorem State.rest_of_moved {s t : State .text} {n : Nat} (hinput : t.input = s.input)
    (hindex : t.index = s.index + n) : t.rest = s.rest.drop n := by
  rw [rest, rest, hinput, hindex, List.drop_drop]

/-- The first characters of what is left are there to be cut out. -/
theorem State.slice?_rest {s t : State .text} {n : Nat} (hinput : t.input = s.input)
    (hs : s.index ≤ s.input.length) (hn : n ≤ s.rest.length) :
    t.slice? s.index (s.index + n) = some (s.rest.take n) := by
  rw [rest, List.length_drop] at hn
  have hbounds : s.index ≤ s.index + n ∧ s.index + n ≤ t.input.length := by
    rw [hinput]
    omega
  rw [slice?, if_pos hbounds, hinput, Nat.add_sub_cancel_left, rest]

namespace Parser

/-- A parser that takes from the rest of the text what a pattern takes, and fails where the pattern
takes nothing. -/
def Finds (p : Parser .text Unit) (pattern : Pattern) : Prop :=
  ∀ s, s.index ≤ s.input.length →
    (∃ n t, pattern s.rest = some n ∧ p s = .ok () t ∧ t.input = s.input ∧ t.index = s.index + n) ∨
    ∃ t, pattern s.rest = none ∧ p s = .fail .recoverable t

/-- A parser that makes the token of the rest of the text that a reader makes of it, and fails where
the reader finds nothing. -/
def Reads (p : Parser .text Token) (read : Reader) : Prop :=
  ∀ s, s.index ≤ s.input.length →
    (∃ n kind t, read s.rest = some (n, kind) ∧
      p s = .ok ⟨s.index, s.index + n, kind, .ofList (s.rest.take n)⟩ t ∧
      t.input = s.input ∧ t.index = s.index + n) ∨
    ∃ t, read s.rest = none ∧ p s = .fail .recoverable t

/-- A pattern that matches where it is tried is taken as far as it goes. -/
theorem scan_pattern_ok {pattern : Pattern} (hp : pattern.Fits) (name : String) {s : State .text}
    {stop : Nat} (h : pattern.endAt s.input s.index = some stop) :
    Parser.scan (fun text start => (pattern.endAt text start).map (·, ())) name s =
      .ok () (s.moveTo stop) := by
  simp only [Parser.scan, h, Option.map_some, if_pos (hp.endAt_bounds h)]

/-- A pattern that does not match where it is tried is expected there by its name. -/
theorem scan_pattern_fail {pattern : Pattern} (name : String) {s : State .text}
    (h : pattern.endAt s.input s.index = none) :
    Parser.scan (fun text start => (pattern.endAt text start).map (·, ())) name s =
      .fail .recoverable (s.expect [name]) := by
  simp only [Parser.scan, h, Option.map_none]

theorem Finds.scan {pattern : Pattern} (hp : pattern.Fits) (name : String) :
    (Parser.scan (fun text start => (pattern.endAt text start).map (·, ())) name).Finds
      pattern := by
  intro s hs
  cases hn : pattern s.rest with
  | none =>
    have hmatch : pattern.endAt s.input s.index = none := by
      rw [Pattern.endAt_of_le _ hs, ← State.rest, hn, Option.map_none]
    exact .inr ⟨s.expect [name], rfl, scan_pattern_fail name hmatch⟩
  | some n =>
    have hmatch : pattern.endAt s.input s.index = some (s.index + n) := by
      rw [Pattern.endAt_of_le _ hs, ← State.rest, hn, Option.map_some]
    exact .inl ⟨n, s.moveTo (s.index + n), rfl, scan_pattern_ok hp name hmatch, rfl, rfl⟩

theorem Finds.refuse (message : String) :
    (Parser.refuse message).Finds fun _ => none :=
  fun _ _ => .inr ⟨_, rfl, rfl⟩

namespace Reads

/-- What a pattern takes, made a token. -/
theorem tokenize {p : Parser .text Unit} {pattern : Pattern} (hp : p.Finds pattern)
    (hfits : pattern.Fits) (kind : Unit → List Char → TokenKind) :
    (Parser.spanned (fun x start stop text => ⟨start, stop, kind x text, .ofList text⟩) p).Reads
      (.ofPattern pattern (kind ())) := by
  intro s hs
  rcases hp s hs with ⟨n, t, hn, ht, hinput, hindex⟩ | ⟨t, hnone, ht⟩
  · have hslice : t.slice? s.index t.index = some (s.rest.take n) := by
      rw [hindex]
      exact State.slice?_rest hinput hs (hfits _ n hn)
    refine .inl ⟨n, _, t, by rw [Reader.ofPattern, hn, Option.map_some], ?_, hinput, hindex⟩
    rw [spanned_ok ht hslice, hindex]
  · exact .inr ⟨t, by rw [Reader.ofPattern, hnone, Option.map_none], spanned_fail ht⟩

theorem orElse {p q : Parser .text Token} {read read' : Reader} (hb : p.Backtracks)
    (hp : p.Reads read) (hq : q.Reads read') :
    (Parser.orElse p q).Reads (.orElse read read') := by
  intro s hs
  rcases hp s hs with ⟨n, kind, t, hread, ht, hend⟩ | ⟨t, hnone, ht⟩
  · exact .inl ⟨n, kind, t, by rw [Reader.orElse, hread, Option.some_or], orElse_ok ht, hend⟩
  · have hinput := (hb.fail ht).1
    have hs' : (t.restore s.index).index ≤ (t.restore s.index).input.length := by
      rw [State.index_restore, State.input_restore, hinput]
      exact hs
    rw [orElse_recoverable ht, Reader.orElse, hnone, Option.none_or, ← State.rest_restore hinput]
    rcases hq _ hs' with ⟨n, kind, u, hread, hu, hu', hindex⟩ | hmissed
    · exact .inl ⟨n, kind, u, hread, hu, hu'.trans hinput, hindex⟩
    · exact .inr hmissed

theorem label {p : Parser .text Token} {read : Reader} (name : String) (hp : p.Reads read) :
    (Parser.label name p).Reads read := by
  intro s hs
  rcases hp (s.dropFailure.note (.enter name)) hs with
    ⟨n, kind, t, hread, ht, hinput, hindex⟩ | ⟨t, hnone, ht⟩
  · exact .inl ⟨n, kind, _, hread, label_ok ht, hinput, hindex⟩
  · refine .inr ?_
    by_cases hbeyond : t.failedBeyond s.index = true
    · exact ⟨_, hnone, label_beyond ht hbeyond⟩
    · exact ⟨_, hnone, label_named ht hbeyond⟩

end Reads

/-- Words that take something stop where their pattern stops. -/
theorem Finds.scanWord {words : Parser .text Unit} {pattern : Pattern} (hwords : words.Finds pattern)
    (hb : words.Backtracks) (hpattern : pattern.Advances) {s : State .text}
    (hs : s.index ≤ s.input.length) :
    ∃ t, Parser.scanWord words s = .ok ((pattern s.rest).map (s.index + ·), t) ∧
      t.input = s.input ∧ t.index = s.index := by
  rcases hwords s.dropFailure hs with ⟨n, t, hn, ht, hinput, hindex⟩ | ⟨t, hnone, ht⟩
  · have hpos := hpattern _ n hn
    have hlt : s.index < t.index := by
      rw [hindex]
      exact Nat.lt_add_of_pos_right hpos
    have hn' : pattern s.rest = some n := hn
    refine ⟨s.afterLook t, ?_, hinput, rfl⟩
    rw [scanWord_ok ht, if_pos hlt, hindex, hn', Option.map_some]
    rfl
  · have hnone' : pattern s.rest = none := hnone
    refine ⟨s.afterLook t, ?_, (hb.fail ht).1, rfl⟩
    rw [scanWord_fail ht, hnone', Option.map_none]

/-- The tokenizer of a vocabulary makes of the text what its reader makes of it. -/
theorem Reads.terminal (lexicon : Lexicon) {words : Parser .text Unit} {pattern : Pattern}
    (hwords : words.Finds pattern) (hb : words.Backtracks) (hpattern : pattern.Advances)
    (hfits : pattern.Fits) : (Parser.terminal lexicon words).Reads (lexicon.reader pattern) := by
  intro s hs
  have hstart : ¬ (s.input.length < s.index ∧ lexicon.operators ≠ []) :=
    fun h => Nat.not_lt.mpr hs h.1
  obtain ⟨t, hscan, hinput, hindex⟩ := hwords.scanWord hb hpattern hs
  have hcut : ∀ n kind, n ≤ s.rest.length → Parser.cut (s.index + n) kind t =
      .ok ⟨s.index, s.index + n, kind (.ofList (s.rest.take n)), .ofList (s.rest.take n)⟩
        (t.moveTo (s.index + n)) := by
    intro n kind hn
    have hslice : t.slice? t.index (s.index + n) = some (s.rest.take n) := by
      rw [hindex]
      exact State.slice?_rest hinput hs hn
    rw [cut_ok hslice, hindex]
  have hrest : t.input.drop t.index = s.rest := by rw [hinput, hindex, State.rest]
  have hscanned := terminal_scanned hstart hscan
  rw [hrest] at hscanned
  rcases hscanned with ⟨hop, hword, hrun⟩ | ⟨m, hm, hlonger, hrun⟩ | ⟨operator, hop, hlonger, hrun⟩
  · refine .inr ⟨_, ?_, hrun⟩
    rw [Option.map_eq_none_iff] at hword
    rw [Lexicon.reader, Reader.longest_of_none, Reader.ofPattern, hword, Option.map_none]
    rw [Lexicon.operatorReader, hop, Option.map_none]
  · obtain ⟨n, hn, rfl⟩ := Option.map_eq_some_iff.mp hm
    refine .inl ⟨n, _, _, ?_, hrun.trans (hcut n _ (hfits _ n hn)), hinput, rfl⟩
    refine Reader.longest_second (by rw [Reader.ofPattern, hn, Option.map_some]) fun x hx => ?_
    obtain ⟨operator, hop, rfl⟩ := Option.map_eq_some_iff.mp hx
    have hlt := hlonger operator hop
    dsimp only
    omega
  · have hlength := Lexicon.longestOperator?_length_le hop
    rw [hindex] at hrun hlonger
    refine .inl ⟨operator.length, _, _, ?_, hrun.trans (hcut _ _ hlength), hinput, rfl⟩
    refine Reader.longest_first (by rw [Lexicon.operatorReader, hop, Option.map_some]) fun y hy => ?_
    obtain ⟨n, hn, rfl⟩ := Option.map_eq_some_iff.mp hy
    have hle := hlonger (s.index + n) (by rw [hn, Option.map_some])
    dsimp only
    omega

end Parser

end Descent
