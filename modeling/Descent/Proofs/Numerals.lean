import Descent.Proofs.Naming
import Descent.Proofs.Pattern.Greedy
import Descent.Proofs.Relexing
import Descent.Proofs.Retained
import Mathlib.Data.List.Induction
import Mathlib.Data.Nat.Digits.Defs

/-!
Integers and the numbers they denote.

What the digits of a numeral are worth says `Numeral.placeValue`, a number without bounds; the word that
is made of them digit by digit is that number, wrapped (`Numeral.value_eq`). At most one numeral leads a
text (`Numeral.Leads`): which of three ways it is written in is settled by its first characters, and it
goes as far as it can. The tokenizer of integers finds that one, and where there is none it has expected
all three ways at its place, which its name sums up (`Rules.longTokenizer_denotes`).
-/

open scoped Computability

namespace Descent.Numeral

open Spelling

/-! ## Place values -/

/-- The digits in the order of what they stand for. -/
def digitRow : List Char :=
  ['0', '1', '2', '3', '4', '5', '6', '7', '8', '9', 'a', 'b', 'c', 'd', 'e', 'f']

/-- What a digit of either case stands for. -/
def rank (c : Char) : Nat :=
  digitRow.idxOf c.toLower

/-- The number that digits denote, the last of them being worth least. -/
def placeValue (radix : Nat) (digits : List Char) : Nat :=
  Nat.ofDigits radix (digits.reverse.map rank)

/-- A word as a number wrapped to 64 bits, with a sign. -/
structure Denotes (word : Int64) (n : Nat) : Prop where
  wrapped : word.toInt = (n : Int).bmod (2 ^ 64)
  exact : n < 2 ^ 63 → word.toInt = n

theorem denotes_ofNat (n : Nat) : Denotes (Int64.ofNat n) n where
  wrapped := Int64.toInt_ofNat'
  exact := Int64.toInt_ofNat_of_lt

theorem placeValue_append (radix : Nat) (digits : List Char) (c : Char) :
    placeValue radix (digits ++ [c]) = placeValue radix digits * radix + rank c := by
  rw [placeValue, List.reverse_append, List.reverse_singleton, List.singleton_append, List.map_cons,
    Nat.ofDigits_cons, placeValue, Nat.add_comm, Nat.mul_comm]

theorem digit_rank {c : Char} (h : IsHexDigit c) : digitValue c = some (rank c) ∧ rank c < 16 ∧
    (IsDigit c → rank c < 10) ∧ (IsOctalDigit c → rank c < 8) := by
  have hcodes : ∀ n < 128, IsHexDigit (Char.ofNat n) →
      digitValue (Char.ofNat n) = some (rank (Char.ofNat n)) ∧ rank (Char.ofNat n) < 16 ∧
      (IsDigit (Char.ofNat n) → rank (Char.ofNat n) < 10) ∧
      (IsOctalDigit (Char.ofNat n) → rank (Char.ofNat n) < 8) := by
    decide
  have hcode : (48 ≤ c.toNat ∧ c.toNat ≤ 57) ∨ (97 ≤ c.toNat ∧ c.toNat ≤ 102) ∨
      65 ≤ c.toNat ∧ c.toNat ≤ 70 := h
  have hc := hcodes c.toNat (by omega)
  rw [Char.ofNat_toNat] at hc
  exact hc h

theorem isHexDigit_of_isDigit {c : Char} (h : IsDigit c) : IsHexDigit c :=
  .inl h

theorem isDigit_of_isPositiveDigit {c : Char} (h : IsPositiveDigit c) : IsDigit c :=
  ⟨Char.le_trans (by decide) h.1, h.2⟩

theorem isDigit_of_isOctalDigit {c : Char} (h : IsOctalDigit c) : IsDigit c :=
  ⟨h.1, Char.le_trans h.2 (by decide)⟩

theorem digitIn_eq {radix : Nat} {c : Char} (h : IsHexDigit c) (hradix : rank c < radix) :
    digitIn radix c = some (rank c) := by
  rw [digitIn, (digit_rank h).1, Option.filter_some, if_pos (decide_eq_true hradix)]

theorem value_eq {radix : Nat} {digits : List Char}
    (h : ∀ c ∈ digits, IsHexDigit c ∧ rank c < radix) :
    value radix digits = Int64.ofNat (placeValue radix digits) := by
  induction digits using List.reverseRecOn with
  | nil => rfl
  | append_singleton digits c ih =>
    obtain ⟨hc, hradix⟩ := h c (List.mem_append_right _ (.head _))
    rw [value_append_digit digits (digitIn_eq hc hradix), placeValue_append,
      ih fun d hd => h d (List.mem_append_left _ hd), Int64.ofNat_add, Int64.ofNat_mul]

/-! ## The numeral at the front of a text -/

/-- The mark of a hexadecimal numeral with a digit behind it. -/
def BeginsHex (text : List Char) : Prop :=
  ∃ mark digit rest, IsHexMark mark ∧ IsHexDigit digit ∧ text = '0' :: mark :: digit :: rest

/-- The numeral that stands at the front of a text, as far as it goes, and the number it is written
for: hexadecimal after its mark and a digit, octal after any other zero, decimal otherwise. -/
inductive Leads : List Char → List Char → Nat → Prop where
  | hex {text digits : List Char} {mark : Char} (begins : BeginsHex text)
      (longest : Longest hexNumeral text ('0' :: mark :: digits)) :
      Leads text ('0' :: mark :: digits) (placeValue 16 digits)
  | octal {text digits : List Char} (begins : ¬ BeginsHex text)
      (longest : Longest octalNumeral text ('0' :: digits)) :
      Leads text ('0' :: digits) (placeValue 8 ('0' :: digits))
  | decimal {text digits : List Char} (longest : Longest decimalNumeral text digits) :
      Leads text digits (placeValue 10 digits)

variable {text numeral numeral' : List Char} {n n' : Nat}

theorem mem_hexNumeral : text ∈ hexNumeral ↔
    ∃ mark digits, IsHexMark mark ∧ digits ∈ run IsHexDigit ∧ text = '0' :: mark :: digits := by
  constructor
  · intro h
    obtain ⟨_, rest, rfl, hrest, rfl⟩ := mem_one_mul.mp h
    obtain ⟨mark, digits, hmark, hdigits, rfl⟩ := mem_one_mul.mp hrest
    exact ⟨mark, digits, hmark, hdigits, rfl⟩
  · rintro ⟨mark, digits, hmark, hdigits, rfl⟩
    exact cons_mem_one_mul.mpr ⟨rfl, cons_mem_one_mul.mpr ⟨hmark, hdigits⟩⟩

theorem mem_octalNumeral : text ∈ octalNumeral ↔
    ∃ digits, (∀ c ∈ digits, IsOctalDigit c) ∧ text = '0' :: digits := by
  constructor
  · intro h
    obtain ⟨_, digits, rfl, hdigits, rfl⟩ := mem_one_mul.mp h
    exact ⟨digits, mem_star.mp hdigits, rfl⟩
  · rintro ⟨digits, hdigits, rfl⟩
    exact cons_mem_one_mul.mpr ⟨rfl, mem_star.mpr hdigits⟩

theorem head_of_zero {L : Language Char} {rest : List Char} (h : Longest L text ('0' :: rest)) :
    text.head? = some '0' := by
  obtain ⟨after, rfl⟩ := h.front
  rfl

theorem head_of_decimal (h : Longest decimalNumeral text numeral) :
    ∃ c, IsPositiveDigit c ∧ text.head? = some c := by
  obtain ⟨c, rest, hc, -, rfl⟩ := mem_one_mul.mp h.mem
  obtain ⟨after, rfl⟩ := h.front
  exact ⟨c, hc, rfl⟩

theorem not_zero_and_decimal {L : Language Char} {rest : List Char}
    (h : Longest L text ('0' :: rest)) (h' : Longest decimalNumeral text numeral) : False := by
  obtain ⟨c, hc, hhead⟩ := head_of_decimal h'
  cases (head_of_zero h).symm.trans hhead
  exact absurd hc (by decide)

theorem Leads.head (h : Leads text numeral n) : ∃ c, text.head? = some c ∧ IsDigit c := by
  cases h with
  | hex _ longest | octal _ longest => exact ⟨'0', head_of_zero longest, by decide⟩
  | decimal longest =>
    obtain ⟨c, hc, hhead⟩ := head_of_decimal longest
    exact ⟨c, hhead, isDigit_of_isPositiveDigit hc⟩

/-- There is one such numeral at most. -/
theorem Leads.unique (h : Leads text numeral n) (h' : Leads text numeral' n') :
    numeral = numeral' ∧ n = n' := by
  cases h with
  | hex begins longest =>
    cases h' with
    | hex _ longest' => cases longest.unique longest'; exact ⟨rfl, rfl⟩
    | octal begins' => exact absurd begins begins'
    | decimal longest' => exact (not_zero_and_decimal longest longest').elim
  | octal begins longest =>
    cases h' with
    | hex begins' => exact absurd begins' begins
    | octal _ longest' => cases longest.unique longest'; exact ⟨rfl, rfl⟩
    | decimal longest' => exact (not_zero_and_decimal longest longest').elim
  | decimal longest =>
    cases h' with
    | hex _ longest' | octal _ longest' => exact (not_zero_and_decimal longest' longest).elim
    | decimal longest' => cases longest.unique longest'; exact ⟨rfl, rfl⟩

/-! ## What the reader of integers finds -/

theorem hexValue_eq {mark : Char} {digits : List Char} (hmark : IsHexMark mark)
    (h : digits ∈ run IsHexDigit) :
    hexValue ('0' :: mark :: digits) = Int64.ofNat (placeValue 16 digits) := by
  have hvalue : value 16 digits = Int64.ofNat (placeValue 16 digits) :=
    value_eq fun c hc => ⟨(mem_run.mp h).2 c hc, (digit_rank ((mem_run.mp h).2 c hc)).2.1⟩
  rcases hmark with rfl | rfl <;> exact hvalue

theorem octalValue_eq (h : text ∈ octalNumeral) :
    octalValue text = Int64.ofNat (placeValue 8 text) := by
  obtain ⟨digits, hdigits, rfl⟩ := mem_octalNumeral.mp h
  refine value_eq fun c hc => ?_
  have hoctal : IsOctalDigit c := (List.forall_mem_cons (p := IsOctalDigit)).mpr
    ⟨by decide, hdigits⟩ c hc
  have hhex := isHexDigit_of_isDigit (isDigit_of_isOctalDigit hoctal)
  exact ⟨hhex, (digit_rank hhex).2.2.2 hoctal⟩

theorem decimalValue_eq (h : text ∈ decimalNumeral) :
    decimalValue text = Int64.ofNat (placeValue 10 text) := by
  obtain ⟨first, rest, hfirst, hrest, rfl⟩ := mem_one_mul.mp h
  refine value_eq fun c hc => ?_
  have hdigit : IsDigit c := List.forall_mem_cons.mpr
    ⟨isDigit_of_isPositiveDigit hfirst, mem_star.mp hrest⟩ c hc
  have hhex := isHexDigit_of_isDigit hdigit
  exact ⟨hhex, (digit_rank hhex).2.2.1 hdigit⟩

theorem beginsHex_of_front (h : text ∈ hexNumeral) {rest : List Char} (hfront : text <+: rest) :
    BeginsHex rest := by
  obtain ⟨mark, digits, hmark, hdigits, rfl⟩ := mem_hexNumeral.mp h
  obtain ⟨digit, more, hdigit, -, rfl⟩ := mem_one_mul.mp hdigits
  obtain ⟨after, rfl⟩ := hfront
  exact ⟨mark, digit, more ++ after, hmark, hdigit, rfl⟩

theorem not_beginsHex (h : Pattern.hexInteger text = none) : ¬ BeginsHex text := by
  rintro ⟨mark, digit, rest, hmark, hdigit, rfl⟩
  refine Pattern.takes_hexInteger.not_front h
    (mem_hexNumeral.mpr ⟨mark, [digit], hmark, ?_, rfl⟩) ⟨rest, rfl⟩
  exact mem_run.mpr ⟨List.cons_ne_nil _ _, List.forall_mem_singleton.mpr hdigit⟩

/-- The reader of integers finds the numeral at the front, and its number as a word. -/
theorem long_leads {kind : TokenKind} (h : Reader.long text = some (n, kind)) :
    n ≤ text.length ∧ ∃ value, Leads text (text.take n) value ∧
      kind = .long (Int64.ofNat value) := by
  rcases Option.or_eq_some_iff.mp h with hzero | ⟨hnone, hdecimal⟩
  · rcases Option.or_eq_some_iff.mp hzero with hhex | ⟨hnone, hoctal⟩
    · obtain ⟨m, hm, heq⟩ := Option.map_eq_some_iff.mp hhex
      cases heq
      obtain ⟨hlength, hlongest⟩ := Pattern.takes_hexInteger.longest hm
      have hbegins := beginsHex_of_front hlongest.mem hlongest.front
      obtain ⟨mark, digits, hmark, hdigits, htake⟩ := mem_hexNumeral.mp hlongest.mem
      rw [htake] at hlongest ⊢
      exact ⟨hlength, _, .hex hbegins hlongest, congrArg _ (hexValue_eq hmark hdigits)⟩
    · obtain ⟨m, hm, heq⟩ := Option.map_eq_some_iff.mp hoctal
      cases heq
      obtain ⟨hlength, hlongest⟩ := Pattern.takes_octalInteger.longest hm
      have hvalue := octalValue_eq hlongest.mem
      obtain ⟨digits, -, htake⟩ := mem_octalNumeral.mp hlongest.mem
      rw [htake] at hlongest hvalue ⊢
      have hbegins := not_beginsHex (Option.map_eq_none_iff.mp hnone)
      exact ⟨hlength, _, .octal hbegins hlongest, congrArg _ hvalue⟩
  · obtain ⟨m, hm, heq⟩ := Option.map_eq_some_iff.mp hdecimal
    cases heq
    obtain ⟨hlength, hlongest⟩ := Pattern.takes_decimalInteger.longest hm
    exact ⟨hlength, _, .decimal hlongest, congrArg _ (decimalValue_eq hlongest.mem)⟩

/-- It finds nothing where no digit stands, and none of the three patterns does. -/
theorem long_eq_none (h : Reader.long text = none) :
    Pattern.hexInteger text = none ∧ Pattern.octalInteger text = none ∧
      Pattern.decimalInteger text = none ∧ ∀ c, text.head? = some c → ¬ IsDigit c := by
  obtain ⟨hzero, hdecimal⟩ := Option.or_eq_none_iff.mp h
  obtain ⟨hhex, hoctal⟩ := Option.or_eq_none_iff.mp hzero
  have hoctal' := Option.map_eq_none_iff.mp hoctal
  have hdecimal' := Option.map_eq_none_iff.mp hdecimal
  refine ⟨Option.map_eq_none_iff.mp hhex, hoctal', hdecimal', fun c hhead hdigit => ?_⟩
  obtain ⟨rest, rfl⟩ := List.head?_eq_some_iff.mp hhead
  by_cases hc : c = '0'
  · subst hc
    exact Pattern.takes_octalInteger.not_front hoctal' (mem_octalNumeral.mpr ⟨[], nofun, rfl⟩)
      ⟨rest, rfl⟩
  · have hpositive : IsPositiveDigit c :=
      (Pattern.isPositiveDigit_iff c).mp (by simp [(Pattern.isDigit_iff c).mpr hdigit, hc])
    have hmem : [c] ∈ decimalNumeral := cons_mem_one_mul.mpr ⟨hpositive, mem_star.mpr nofun⟩
    exact Pattern.takes_decimalInteger.not_front hdecimal' hmem ⟨rest, rfl⟩

/-! ## Numerals in decimal -/

/-- The decimal digits of a positive number begin with none that is zero, and denote the number. -/
theorem toDigits_spelled {n : Nat} (hn : 0 < n) :
    Nat.toDigits 10 n ∈ decimalNumeral ∧ placeValue 10 (Nat.toDigits 10 n) = n := by
  have hdigit : ∀ d < 10, IsDigit d.digitChar ∧ rank d.digitChar = d ∧
      (0 < d → IsPositiveDigit d.digitChar) := by
    decide
  induction n using Nat.strongRecOn with
  | ind n ih =>
    by_cases hlt : n < 10
    · obtain ⟨-, hrank, hpositive⟩ := hdigit n hlt
      rw [Nat.toDigits_of_lt_base hlt]
      refine ⟨cons_mem_one_mul.mpr ⟨hpositive hn, Language.nil_mem_kstar _⟩, ?_⟩
      rw [← List.nil_append [n.digitChar], placeValue_append, hrank]
      exact Nat.zero_add n
    · obtain ⟨hmem, hvalue⟩ := ih (n / 10) (by omega) (by omega)
      obtain ⟨hlast, hrank, -⟩ := hdigit (n % 10) (Nat.mod_lt n (by decide))
      rw [Nat.toDigits_of_base_le (by decide) (Nat.le_of_not_lt hlt)]
      constructor
      · obtain ⟨c, rest, hc, hrest, heq⟩ := mem_one_mul.mp hmem
        rw [heq, List.cons_append]
        refine cons_mem_one_mul.mpr ⟨hc, mem_star.mpr ?_⟩
        exact List.forall_mem_append.mpr ⟨mem_star.mp hrest, List.forall_mem_singleton.mpr hlast⟩
      · rw [placeValue_append, hvalue, hrank]
        omega

end Descent.Numeral

namespace Descent.Rules

open Numeral Spelling

variable {S : Scope} (rules : Rules S)

/-! ## Runs of the tokenizer -/

/-- A pattern that does not match where it is tried is expected there by its name. -/
theorem tokenize_pattern_fail {p : Pattern} (kind : Unit → List Char → TokenKind) (name : String)
    {s : State .text} (h : p s.rest = none) :
    rules.parser (.tokenize kind (.pattern p name)) s = .fail .recoverable (s.expect [name]) := by
  have hnone : p.endAt s.input s.index = none := by
    unfold Pattern.endAt
    split
    · rw [← State.rest, h, Option.map_none]
    · rfl
  have hscan : rules.parser (.pattern p name) s = .fail .recoverable (s.expect [name]) :=
    Parser.scan_pattern_fail name hnone
  have hrun : rules.parser (.tokenize kind (.pattern p name)) s = Parser.spanned
    (fun x start stop text => ⟨start, stop, kind x text, String.ofList text⟩)
    (rules.parser (.pattern p name)) s := rfl
  rw [hrun, Parser.spanned_fail hscan]

/-- As an alternative it is expected beside what was tried before it. -/
theorem orElse_pattern_fail {g : Grammar S .text Token} {p : Pattern}
    (kind : Unit → List Char → TokenKind) (name : String) {s : State .text} {names : List String}
    (hg : rules.parser g s = .fail .recoverable (s.expect names)) (hp : p s.rest = none) :
    rules.parser (.orElse g (.tokenize kind (.pattern p name))) s =
      .fail .recoverable (s.expect (names ++ [name])) := by
  have hrun := rules.tokenize_pattern_fail kind name (s := s.expect names) hp
  rw [State.expect_append] at hrun
  exact (Parser.orElse_recoverable hg).trans hrun

/-- Where there is no digit, an integer is expected. -/
theorem longTokenizer_fail {s : State .text} (h : Reader.long s.rest = none) :
    ∃ t, rules.parser .longTokenizer s = .fail .recoverable t ∧ t.index = s.index ∧
      t.failure =
        some (Failure.record s.failure ⟨s.index, ["integer"], none, s.encountered⟩) := by
  obtain ⟨hhex, hoctal, hdecimal, -⟩ := long_eq_none h
  have hfirst : rules.parser .hexTokenizer s.dropFailure =
      .fail .recoverable (s.dropFailure.expect ["hex integer"]) :=
    rules.tokenize_pattern_fail _ _ hhex
  have htried : rules.parser
      (.orElse (.orElse .hexTokenizer .octalTokenizer) .decimalIntegerTokenizer) s.dropFailure =
      .fail .recoverable
        (s.dropFailure.expect ["hex integer", "octal integer", "decimal integer"]) :=
    rules.orElse_pattern_fail _ _ (rules.orElse_pattern_fail _ _ hfirst hoctal) hdecimal
  -- all of them are expected at the place, so that the name is put there
  have hhere : ¬ (s.dropFailure.expect
      ["hex integer", "octal integer", "decimal integer"]).failedBeyond s.index = true := by
    rw [State.failedBeyond_iff]
    rintro ⟨failure, ⟨⟩, hlt⟩
    exact Nat.lt_irrefl _ hlt
  obtain ⟨t, ht, hindex, -, hfailure⟩ := label_of_not_beyond (.grammar _) "integer" htried hhere
  exact ⟨t, ht, hindex, hfailure⟩

/-- Where there is a digit, the numeral that begins there is a token, and its number a word. -/
theorem longTokenizer_ok {s : State .text} {n : Nat} {kind : TokenKind}
    (h : Reader.long s.rest = some (n, kind)) :
    ∃ numeral value t, Leads s.rest numeral value ∧
      rules.parser .longTokenizer s = .ok ⟨s.index, s.index + numeral.length,
        .long (Int64.ofNat value), String.ofList numeral⟩ t ∧
      t.input = s.input ∧ t.index = s.index + numeral.length := by
  obtain ⟨hlength, value, hleads, rfl⟩ := long_leads h
  have hs : s.index ≤ s.input.length := by
    by_contra hpast
    rw [State.rest, List.drop_eq_nil_of_le (Nat.le_of_not_le hpast)] at h
    cases h
  rcases rules.longTokenizer_reads s hs with ⟨m, kind, t, hread, ht, hinput, hindex⟩ | ⟨t, hnone, -⟩
  · rw [h] at hread
    cases hread
    refine ⟨_, value, t, hleads, ?_, hinput, ?_⟩
    · rw [List.length_take, Nat.min_eq_left hlength]
      exact ht
    · rw [List.length_take, Nat.min_eq_left hlength]
      exact hindex
  · rw [h] at hnone
    cases hnone

/-- A text is taken by the tokenizer of integers as one token, with the word for a number. -/
def ReadsLong (text : String) (n : Nat) : Prop :=
  ∃ word, Denotes word n ∧ Grammar.longTokenizer.parse rules text =
    .ok (.ok ⟨0, text.length, .long word, text⟩)

/-- A numeral that is all of a text is read as such. -/
theorem readsLong_of_leads {text : List Char} {n : Nat} (h : Leads text text n) :
    rules.ReadsLong (String.ofList text) n := by
  cases hread : Reader.long text with
  | none =>
    obtain ⟨c, hhead, hdigit⟩ := h.head
    exact absurd hdigit ((long_eq_none hread).2.2.2 c hhead)
  | some found =>
    obtain ⟨m, kind⟩ := found
    obtain ⟨hlength, value, hleads, rfl⟩ := long_leads hread
    obtain ⟨hall, rfl⟩ := h.unique hleads
    have hm : m = text.length := by
      rw [hall, List.length_take, Nat.min_eq_left hlength]
    refine ⟨Int64.ofNat n, denotes_ofNat n, rules.parse_of_reads rules.longTokenizer_reads ?_⟩
    rw [String.toList_ofList, String.length_ofList, hread, hm]

/-- **Integers denote their values, wrapped to 64 bits.** The tokenizer of integers takes each of these
texts as one token: the decimal digits of a positive number, with the word for the number; a mark `0x`
or `0X` and hexadecimal digits of either case, with the word for what the digits denote; and a zero and
octal digits, likewise. Wherever it is run, it finds a token if a digit stands there, and that is the
numeral that leads the text from there on, with the word for its number. If none stands there, it fails
recoverably at the place, where an integer is expected and nothing else. -/
theorem longTokenizer_denotes :
    (∀ n, 0 < n → rules.ReadsLong (toString n) n) ∧
    (∀ mark digits, IsHexMark mark → digits ∈ run IsHexDigit →
      rules.ReadsLong (String.ofList ('0' :: mark :: digits)) (placeValue 16 digits)) ∧
    (∀ digits, (∀ c ∈ digits, IsOctalDigit c) →
      rules.ReadsLong (String.ofList ('0' :: digits)) (placeValue 8 ('0' :: digits))) ∧
    ∀ s : State .text,
      ((∃ c, s.next? = some c ∧ IsDigit c) ∧ ∃ numeral n word t, Leads s.rest numeral n ∧
        Denotes word n ∧ rules.parser .longTokenizer s =
          .ok ⟨s.index, s.index + numeral.length, .long word, String.ofList numeral⟩ t ∧
        t.input = s.input ∧ t.index = s.index + numeral.length) ∨
      (¬ ∃ c, s.next? = some c ∧ IsDigit c) ∧ ∃ t,
        rules.parser .longTokenizer s = .fail .recoverable t ∧ t.index = s.index ∧
        t.failure = some (Failure.record s.failure ⟨s.index, ["integer"], none, s.encountered⟩) := by
  refine ⟨fun n hn => ?_, fun mark digits hmark hdigits => ?_, fun digits hdigits => ?_, fun s => ?_⟩
  · obtain ⟨hmem, hvalue⟩ := toDigits_spelled hn
    have htext : toString n = String.ofList (Nat.toDigits 10 n) := Nat.repr_eq_ofList_toDigits
    have hleads : Leads (Nat.toDigits 10 n) (Nat.toDigits 10 n) n := by
      have hleads := Leads.decimal (.self hmem)
      rwa [hvalue] at hleads
    rw [htext]
    exact rules.readsLong_of_leads hleads
  · have hmem : '0' :: mark :: digits ∈ hexNumeral :=
      mem_hexNumeral.mpr ⟨mark, digits, hmark, hdigits, rfl⟩
    exact rules.readsLong_of_leads (.hex (beginsHex_of_front hmem List.prefix_rfl) (.self hmem))
  · have hmem : '0' :: digits ∈ octalNumeral := mem_octalNumeral.mpr ⟨digits, hdigits, rfl⟩
    refine rules.readsLong_of_leads (.octal ?_ (.self hmem))
    rintro ⟨mark, digit, rest, hmark, -, ⟨⟩⟩
    have hoctal := hdigits mark (.head _)
    rcases hmark with rfl | rfl <;> exact absurd hoctal (by decide)
  · have hnext : s.next? = s.rest.head? := List.head?_drop.symm
    rw [hnext]
    cases hread : Reader.long s.rest with
    | none =>
      refine .inr ⟨?_, rules.longTokenizer_fail hread⟩
      rintro ⟨c, hhead, hdigit⟩
      exact (long_eq_none hread).2.2.2 c hhead hdigit
    | some found =>
      obtain ⟨m, kind⟩ := found
      obtain ⟨numeral, n, t, hleads, ht, hend⟩ := rules.longTokenizer_ok hread
      exact .inl ⟨hleads.head, numeral, n, _, t, hleads, denotes_ofNat n, ht, hend⟩

/-- Sixteen digits `F` are more than a word with a sign can hold, and wrap to the last one below
zero. -/
theorem allOnes_denotes :
    IsHexMark 'X' ∧ List.replicate 16 'F' ∈ run IsHexDigit ∧
    Grammar.longTokenizer.parse nestingRules "0XFFFFFFFFFFFFFFFF" =
      .ok (.ok ⟨0, 18, .long (-1), "0XFFFFFFFFFFFFFFFF"⟩) := by
  have hmark : IsHexMark 'X' := .inr rfl
  have hdigits : List.replicate 16 'F' ∈ run IsHexDigit := by
    refine mem_run.mpr ⟨by decide, fun c hc => ?_⟩
    rw [List.eq_of_mem_replicate hc]
    decide
  obtain ⟨-, hhex, -⟩ := nestingRules.longTokenizer_denotes
  obtain ⟨word, hword, hparse⟩ := hhex 'X' (List.replicate 16 'F') hmark hdigits
  have hones : word = -1 := by
    have hvalue : placeValue 16 (List.replicate 16 'F') = 2 ^ 64 - 1 := by decide +kernel
    rw [← Int64.toInt_inj, hword.wrapped, hvalue]
    decide
  rw [hones] at hparse
  exact ⟨hmark, hdigits, hparse⟩

end Descent.Rules
