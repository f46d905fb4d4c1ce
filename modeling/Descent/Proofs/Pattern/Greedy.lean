import Descent.Proofs.Pattern.Extent
import Descent.Proofs.Pattern.Spelling

/-!
Patterns that give nothing back take the longest stretch.

A pattern takes what it can from the front and never tries again with less. That is enough for the ways
words and numbers are written (`Descent.Spelling`): a run of a class is as long as it can be, and where
two parts follow one another, the second begins with a character that no text of the first contains, so
that a shorter first part could not have been followed by it (`Takes.andThen`). What the parts take
(`Takes`) is put together to what the whole takes, pattern by pattern, and then seen from an index
(`patterns_munch`).
-/

open scoped Computability

namespace Descent.Pattern

open Spelling

/-- The pattern takes a text of the language from the front, and none that stands there is longer. -/
structure Takes (p : Pattern) (L : Language Char) : Prop where
  found {text : List Char} {n : Nat} (h : p text = some n) :
    ∃ found ∈ L, found <+: text ∧ found.length = n
  reaches {text found : List Char} (mem : found ∈ L) (front : found <+: text) :
    ∃ n, p text = some n ∧ found.length ≤ n

/-- The first of two patterns that matches. -/
def either (p q : Pattern) : Pattern :=
  fun text => (p text).or (q text)

/-- What a pattern takes, or nothing. -/
def optionally (p : Pattern) : Pattern :=
  fun text => some ((p text).getD 0)

namespace Takes

variable {p q : Pattern} {L M : Language Char} {inClass : Char → Bool} {IsIn : Char → Prop}
  {text : List Char} {n : Nat}

theorem longest (hp : p.Takes L) (h : p text = some n) :
    n ≤ text.length ∧ Longest L text (text.take n) := by
  obtain ⟨found, hfound, hfront, rfl⟩ := hp.found h
  rw [← List.prefix_iff_eq_take.mp hfront]
  refine ⟨hfront.length_le, hfound, hfront, fun other hother hfront' => ?_⟩
  obtain ⟨n, hn, hle⟩ := hp.reaches hother hfront'
  rw [h] at hn
  cases hn
  exact hle

theorem not_front (hp : p.Takes L) (h : p text = none) {other : List Char} (hother : other ∈ L) :
    ¬ other <+: text := by
  intro hfront
  obtain ⟨n, hn, -⟩ := hp.reaches hother hfront
  rw [h] at hn
  cases hn

/-- A text of the language is taken, all of it, where nothing comes after it. -/
theorem takes_all (hp : p.Takes L) (h : text ∈ L) : p text = some text.length := by
  obtain ⟨n, hn, hle⟩ := hp.reaches h List.prefix_rfl
  rw [hn, Nat.le_antisymm hle (hp.longest hn).1]

/-! ## Building blocks -/

theorem many (hclass : ∀ c, inClass c = true ↔ IsIn c) :
    (Pattern.many inClass).Takes (one IsIn)∗ where
  found := by
    rintro text n ⟨⟩
    refine ⟨text.takeWhile inClass, mem_star.mpr fun c hc => ?_, List.takeWhile_prefix _, rfl⟩
    exact (hclass c).mp (List.all_eq_true.mp List.all_takeWhile c hc)
  reaches := by
    rintro text found hfound ⟨rest, rfl⟩
    have hall : ∀ c ∈ found, inClass c = true := fun c hc => (hclass c).mpr (mem_star.mp hfound c hc)
    refine ⟨_, rfl, ?_⟩
    rw [List.takeWhile_append_of_pos hall, List.length_append]
    exact Nat.le_add_right _ _

theorem headThen (hclass : ∀ c, inClass c = true ↔ IsIn c) (hp : p.Takes L) :
    (Pattern.headThen inClass p).Takes (one IsIn * L) where
  found := by
    intro text n h
    cases text with
    | nil => cases h
    | cons c rest =>
      simp only [Pattern.headThen] at h
      split at h
      · rename_i hc
        obtain ⟨m, hm, rfl⟩ := Option.map_eq_some_iff.mp h
        obtain ⟨found, hfound, hfront, rfl⟩ := hp.found hm
        refine ⟨c :: found, cons_mem_one_mul.mpr ⟨(hclass c).mp hc, hfound⟩, ?_, Nat.add_comm _ _⟩
        exact List.cons_prefix_cons.mpr ⟨rfl, hfront⟩
      · cases h
  reaches := by
    rintro text _ hfound ⟨rest, rfl⟩
    obtain ⟨c, found, hc, hmem, rfl⟩ := mem_one_mul.mp hfound
    obtain ⟨n, hn, hle⟩ := hp.reaches hmem (List.prefix_append found rest)
    refine ⟨1 + n, ?_, ?_⟩
    · rw [List.cons_append, Pattern.headThen, if_pos ((hclass c).mpr hc), hn, Option.map_some]
    · rw [List.length_cons]
      omega

theorem oneOrMore (hclass : ∀ c, inClass c = true ↔ IsIn c) :
    (Pattern.oneOrMore inClass).Takes (run IsIn) := by
  have heq : Pattern.oneOrMore inClass = Pattern.headThen inClass (Pattern.many inClass) := by
    funext text
    cases text with
    | nil => rfl
    | cons c rest =>
      by_cases hc : inClass c = true
      · simp [Pattern.oneOrMore, Pattern.headThen, Pattern.many, hc, Nat.add_comm]
      · simp [Pattern.oneOrMore, Pattern.headThen, hc]
  rw [heq]
  exact .headThen hclass (.many hclass)

/-- One part after another. The first part is as long as it can be. It could be followed by the second
part only where it ends, since what the second begins with is in no text of the first. -/
theorem andThen (hp : p.Takes L) (hq : q.Takes M)
    (hbegins : ∀ u ∈ L, ∀ c v, c :: v ∈ M → c ∉ u) : (Pattern.andThen p q).Takes (L * M) where
  found := by
    intro text n h
    unfold Pattern.andThen at h
    split at h
    · rename_i m hm
      obtain ⟨k, hk, rfl⟩ := Option.map_eq_some_iff.mp h
      obtain ⟨u, hu, ⟨rest, rfl⟩, rfl⟩ := hp.found hm
      rw [List.drop_left] at hk
      obtain ⟨v, hv, hfront, rfl⟩ := hq.found hk
      refine ⟨u ++ v, Language.append_mem_mul hu hv, ?_, List.length_append⟩
      exact (List.prefix_append_right_inj u).mpr hfront
    · cases h
  reaches := by
    rintro text _ hmem ⟨rest, rfl⟩
    obtain ⟨u, hu, v, hv, rfl⟩ := Language.mem_mul.mp hmem
    have hfront : u <+: u ++ v ++ rest := ⟨v ++ rest, (List.append_assoc u v rest).symm⟩
    obtain ⟨m, hm, hle⟩ := hp.reaches hu hfront
    have hfollows : v <+: (u ++ v ++ rest).drop m := by
      cases v with
      | nil => exact List.nil_prefix
      | cons c v =>
        -- the second part does not begin within what the first one takes
        have hend : m = u.length := by
          by_contra hne
          obtain ⟨k, rfl⟩ := Nat.exists_eq_add_of_lt (Nat.lt_of_le_of_ne hle (Ne.symm hne))
          refine hbegins _ (hp.longest hm).2.mem c v hv ?_
          rw [List.append_assoc, Nat.add_assoc, List.take_length_add_append, List.cons_append,
            List.take_succ_cons]
          exact List.mem_append_right u (.head _)
        rw [hend, List.append_assoc, List.drop_left]
        exact List.prefix_append _ _
    obtain ⟨k, hk, hle'⟩ := hq.reaches hv hfollows
    refine ⟨m + k, by simp only [Pattern.andThen, hm, hk, Option.map_some], ?_⟩
    rw [List.length_append]
    exact Nat.add_le_add hle hle'

/-- One of two, told apart by the character they begin with. -/
theorem either (hp : p.Takes L) (hq : q.Takes M) (hL : [] ∉ L)
    (hapart : ∀ c u v, c :: u ∈ L → c :: v ∉ M) :
    (Pattern.either p q).Takes (L + M) where
  found := by
    intro text n h
    rcases Option.or_eq_some_iff.mp h with hfirst | ⟨-, hsecond⟩
    · obtain ⟨found, hfound, hfront⟩ := hp.found hfirst
      exact ⟨found, .inl hfound, hfront⟩
    · obtain ⟨found, hfound, hfront⟩ := hq.found hsecond
      exact ⟨found, .inr hfound, hfront⟩
  reaches := by
    rintro text found (hfound | hfound) hfront
    · obtain ⟨n, hn, hle⟩ := hp.reaches hfound hfront
      exact ⟨n, by rw [Pattern.either, hn, Option.some_or], hle⟩
    · cases h : p text with
      | none =>
        obtain ⟨n, hn, hle⟩ := hq.reaches hfound hfront
        exact ⟨n, by rw [Pattern.either, h, Option.none_or, hn], hle⟩
      | some n =>
        refine ⟨n, by rw [Pattern.either, h, Option.some_or], ?_⟩
        cases found with
        | nil => exact Nat.zero_le n
        | cons c v =>
          obtain ⟨rest, rfl⟩ := hfront
          obtain ⟨u, hu, hu', -⟩ := hp.found h
          cases u with
          | nil => exact absurd hu hL
          | cons d u =>
            obtain ⟨rfl, -⟩ := List.cons_prefix_cons.mp hu'
            exact absurd hfound (hapart d u v hu)

theorem optionally (hp : p.Takes L) : (Pattern.optionally p).Takes (1 + L) where
  found := by
    rintro text n ⟨⟩
    cases h : p text with
    | none => exact ⟨[], .inl rfl, List.nil_prefix, rfl⟩
    | some n =>
      obtain ⟨found, hfound, hfront⟩ := hp.found h
      exact ⟨found, .inr hfound, hfront⟩
  reaches := by
    rintro text found (rfl | hfound) hfront
    · exact ⟨_, rfl, Nat.zero_le _⟩
    · obtain ⟨n, hn, hle⟩ := hp.reaches hfound hfront
      exact ⟨n, by rw [Pattern.optionally, hn, Option.getD_some], hle⟩

end Takes

/-! ## Classes of characters -/

section

variable (c : Char)

theorem isDigit_iff : c.isDigit = true ↔ IsDigit c := by
  rw [Char.isDigit, Bool.and_eq_true, decide_eq_true_iff, decide_eq_true_iff]
  exact Iff.rfl

theorem isAlpha_iff : c.isAlpha = true ↔ IsLetter c := by
  have halpha : c.isAlpha = (c.isUpper || c.isLower) := rfl
  have hupper : c.isUpper = true ↔ 'A' ≤ c ∧ c ≤ 'Z' := decide_eq_true_iff
  have hlower : c.isLower = true ↔ 'a' ≤ c ∧ c ≤ 'z' := by
    exact Bool.and_eq_true_iff.trans (and_congr decide_eq_true_iff decide_eq_true_iff)
  rw [halpha, Bool.or_eq_true, hupper, hlower]
  exact or_comm

theorem isHexDigit_iff : isHexDigit c = true ↔ IsHexDigit c := by
  simp only [isHexDigit, Bool.or_eq_true, Bool.and_eq_true, decide_eq_true_iff, isDigit_iff,
    or_assoc]
  exact Iff.rfl

theorem isOctalDigit_iff : isOctalDigit c = true ↔ IsOctalDigit c := by
  rw [isOctalDigit, Bool.and_eq_true, decide_eq_true_iff, decide_eq_true_iff]
  exact Iff.rfl

theorem isPositiveDigit_iff : (c.isDigit && c != '0') = true ↔ IsPositiveDigit c := by
  rw [Bool.and_eq_true, isDigit_iff, bne_iff_ne, ne_eq, ← Char.toNat_inj]
  change (48 ≤ c.toNat ∧ c.toNat ≤ 57) ∧ ¬ c.toNat = 48 ↔ 49 ≤ c.toNat ∧ c.toNat ≤ 57
  omega

theorem startsName_iff : startsName c = true ↔ IsLetter c ∨ c = '_' := by
  rw [startsName, Bool.or_eq_true, isAlpha_iff, beq_iff_eq]

theorem continuesName_iff : continuesName c = true ↔ IsLetter c ∨ IsDigit c ∨ c = '_' := by
  rw [continuesName, Char.isAlphanum, Bool.or_eq_true, Bool.or_eq_true, isAlpha_iff, isDigit_iff,
    beq_iff_eq, or_assoc]

theorem isExponentMark_iff : Numeral.isExponentMark c = true ↔ IsExponentMark c := by
  rw [Numeral.isExponentMark, Bool.or_eq_true, beq_iff_eq, beq_iff_eq]
  exact Iff.rfl

theorem isHexMark_iff : (c == 'x' || c == 'X') = true ↔ IsHexMark c := by
  rw [Bool.or_eq_true, beq_iff_eq, beq_iff_eq]
  exact Iff.rfl

theorem isSign_iff : isSign c = true ↔ IsSign c := by
  rw [isSign, Bool.or_eq_true, beq_iff_eq, beq_iff_eq]
  exact Iff.rfl

end

/-! ## The patterns -/

theorem takes_integer : integer.Takes digits :=
  .oneOrMore isDigit_iff

theorem takes_fraction : Pattern.fraction.Takes Spelling.fraction :=
  .headThen (fun _ => beq_iff_eq) takes_integer

theorem decimal_eq : Pattern.decimal =
    either (andThen integer (optionally Pattern.fraction)) Pattern.fraction := by
  funext text
  unfold Pattern.decimal either andThen optionally
  cases integer text <;> rfl

theorem takes_decimal : Pattern.decimal.Takes Spelling.decimal := by
  rw [decimal_eq]
  refine .either (.andThen takes_integer (.optionally takes_fraction) ?_) takes_fraction ?_ ?_
  · rintro u hu c v (hv | hv) hc
    · cases hv
    · obtain ⟨rfl, -⟩ := cons_mem_one_mul.mp hv
      exact absurd ((mem_run.mp hu).2 _ hc) (by decide)
  · rw [digits, run_mul]
    exact nil_not_mem_one_mul
  · rw [digits, run_mul]
    intro c u v hu hv
    obtain ⟨rfl, -⟩ := cons_mem_one_mul.mp hv
    exact absurd (cons_mem_one_mul.mp hu).1 (by decide)

theorem signedInteger_eq : signedInteger = either (headThen isSign integer) integer := by
  funext text
  cases text with
  | nil => rfl
  | cons c rest =>
    by_cases hc : isSign c = true
    · have hnone : integer (c :: rest) = none := by
        rcases (isSign_iff c).mp hc with rfl | rfl <;> rfl
      simp [signedInteger, either, headThen, hc, hnone]
    · simp [signedInteger, either, headThen, hc]

theorem takes_signedInteger : signedInteger.Takes ((1 + one IsSign) * digits) := by
  rw [signedInteger_eq, add_mul, one_mul, add_comm]
  refine .either (.headThen isSign_iff takes_integer) takes_integer nil_not_mem_one_mul ?_
  intro c u v hu hv
  have hdigit : IsDigit c := (cons_mem_one_mul.mp hv).1
  rcases (cons_mem_one_mul.mp hu).1 with rfl | rfl <;> exact absurd hdigit (by decide)

theorem takes_scientific : Pattern.scientific.Takes Spelling.scientific := by
  refine .andThen takes_decimal (.headThen isExponentMark_iff takes_signedInteger) ?_
  intro u hu c v hv hc
  rcases (cons_mem_one_mul.mp hv).1 with rfl | rfl <;>
    exact absurd (mem_decimal hu hc) (by decide)

theorem takes_hexInteger : hexInteger.Takes hexNumeral :=
  .headThen (fun _ => beq_iff_eq) (.headThen isHexMark_iff (.oneOrMore isHexDigit_iff))

theorem takes_octalInteger : octalInteger.Takes octalNumeral :=
  .headThen (fun _ => beq_iff_eq) (.many isOctalDigit_iff)

theorem takes_decimalInteger : decimalInteger.Takes decimalNumeral :=
  .headThen isPositiveDigit_iff (.many isDigit_iff)

theorem takes_identifier : identifier.Takes name :=
  .headThen startsName_iff (.many continuesName_iff)

theorem takes_blanks : Pattern.blanks.Takes Spelling.blanks :=
  .oneOrMore fun _ => Iff.rfl

/-! ## Seen from an index -/

/-- Tried at an index of a text, the pattern matches where a text of the language begins that is more
than nothing, and then ends where the longest of these ends. -/
structure Munches (p : Pattern) (L : Language Char) : Prop where
  matches_iff (text : List Char) (start : Nat) : (∃ stop, p.endAt text start = some stop) ↔
    ∃ found ∈ L, found ≠ [] ∧ found <+: text.drop start
  longest {text : List Char} {start stop : Nat} (h : p.endAt text start = some stop) :
    start < stop ∧ stop ≤ text.length ∧
      Longest L (text.drop start) ((text.drop start).take (stop - start))
  ended {text : List Char} {start : Nat} (h : text.length ≤ start) : p.endAt text start = none

theorem Takes.munches {p : Pattern} {L : Language Char} (hp : p.Takes L) (hL : [] ∉ L) :
    p.Munches L where
  matches_iff text start := by
    constructor
    · rintro ⟨stop, h⟩
      obtain ⟨-, n, hn, -⟩ := endAt_eq_some_iff.mp h
      obtain ⟨found, hfound, hfront, -⟩ := hp.found hn
      exact ⟨found, hfound, fun hnil => hL (hnil ▸ hfound), hfront⟩
    · rintro ⟨found, hfound, hne, hfront⟩
      obtain ⟨n, hn, -⟩ := hp.reaches hfound hfront
      have hstart : start ≤ text.length := by
        by_contra hpast
        rw [List.drop_eq_nil_of_le (Nat.le_of_not_le hpast)] at hfront
        exact hne (List.prefix_nil.mp hfront)
      exact ⟨start + n, by rw [endAt_of_le p hstart, hn, Option.map_some]⟩
  longest {text start stop} h := by
    have hfits : p.Fits := fun _ _ hn => (hp.longest hn).1
    obtain ⟨-, n, hn, rfl⟩ := endAt_eq_some_iff.mp h
    have hlongest := (hp.longest hn).2
    have hpos : 0 < n := by
      by_contra hzero
      rw [Nat.eq_zero_of_not_pos hzero, List.take_zero] at hlongest
      exact hL hlongest.mem
    refine ⟨Nat.lt_add_of_pos_right hpos, (hfits.endAt_bounds h).2, ?_⟩
    rw [Nat.add_sub_cancel_left]
    exact hlongest
  ended {text start} h := by
    cases hend : p.endAt text start with
    | none => rfl
    | some stop =>
      obtain ⟨-, n, hn, -⟩ := endAt_eq_some_iff.mp hend
      obtain ⟨found, hfound, hfront, -⟩ := hp.found hn
      rw [List.drop_eq_nil_of_le h, List.prefix_nil] at hfront
      exact absurd (hfront ▸ hfound) hL

/-- The pattern matches all of a text. -/
def Covers (p : Pattern) (text : List Char) : Prop :=
  p.endAt text 0 = some text.length

theorem Takes.covers_iff {p : Pattern} {L : Language Char} (hp : p.Takes L) {text : List Char} :
    p.Covers text ↔ text ∈ L := by
  have hstart : p.endAt text 0 = p text := by
    rw [endAt_of_le p (Nat.zero_le _), List.drop_zero]
    simp
  rw [Covers, hstart]
  constructor
  · intro h
    have hmem := (hp.longest h).2.mem
    rwa [List.take_length] at hmem
  · exact hp.takes_all

/-- **Words and numbers are matched exactly, and as far as they go.** Each pattern, tried at an index of
a text, matches where something begins that is written as it says, takes the longest such stretch, and
matches nothing at the end of the text or past it. -/
theorem patterns_munch :
    Pattern.integer.Munches digits ∧ Pattern.decimal.Munches Spelling.decimal ∧
    Pattern.scientific.Munches Spelling.scientific ∧ hexInteger.Munches hexNumeral ∧
    octalInteger.Munches octalNumeral ∧ decimalInteger.Munches decimalNumeral ∧
    identifier.Munches name ∧ Pattern.blanks.Munches Spelling.blanks :=
  ⟨takes_integer.munches nil_not_mem_run, takes_decimal.munches nil_not_mem_decimal,
    takes_scientific.munches nil_not_mem_scientific, takes_hexInteger.munches nil_not_mem_one_mul,
    takes_octalInteger.munches nil_not_mem_one_mul,
    takes_decimalInteger.munches nil_not_mem_one_mul, takes_identifier.munches nil_not_mem_one_mul,
    takes_blanks.munches nil_not_mem_run⟩

/-- A point with no digits behind it is left, and with it the mark that follows. -/
example : Pattern.scientific.endAt "1.e5".toList 0 = none ∧
    Pattern.decimal.endAt "1.e5".toList 0 = some 1 := ⟨rfl, rfl⟩

/-- A zero is an octal numeral, also in front of a mark that no hexadecimal digit follows. -/
example : hexInteger.endAt "0xg".toList 0 = none ∧ octalInteger.endAt "0xg".toList 0 = some 1 :=
  ⟨rfl, rfl⟩

end Descent.Pattern
