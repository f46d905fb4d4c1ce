import Descent.Proofs.Contract
import Descent.Proofs.Pattern.Greedy
import Descent.Proofs.Relexing

/-!
Numbers with an exponent and their two parts.

The tokenizer takes what its pattern matches, and the parts are looked for in the matched text alone: up
to the first exponent mark, and from there on, less a plus sign. No decimal number contains a mark, so
that the first one is the one that the pattern has found (`Numeral.splitScientific_append`), and behind
it only a sign can be a plus (`Numeral.dropPlus_signed`). So nothing is lost but the plus sign and which
mark it was, and the parts are found again where they are put together with a mark
(`Rules.scientificTokenizer_splits`).
-/

open scoped Computability

namespace Descent

namespace Numeral

open Spelling

/-- Digits, perhaps after a minus sign. -/
def exponent : Language Char := (1 + one (· = '-')) * digits

variable {text u v : List Char} {mark : Char}

/-! ## Where the parts are -/

theorem mem_signed {IsIn : Char → Prop} : text ∈ (1 + one IsIn) * digits ↔
    text ∈ digits ∨ ∃ sign rest, IsIn sign ∧ rest ∈ digits ∧ text = sign :: rest := by
  rw [add_mul, one_mul, Language.mem_add, mem_one_mul]

theorem mem_scientific : text ∈ scientific ↔ ∃ u mark v, u ∈ decimal ∧ IsExponentMark mark ∧
    v ∈ (1 + one IsSign) * digits ∧ text = u ++ mark :: v := by
  constructor
  · intro h
    obtain ⟨u, hu, _, hrest, rfl⟩ := Language.mem_mul.mp h
    obtain ⟨mark, v, hmark, hv, rfl⟩ := mem_one_mul.mp hrest
    exact ⟨u, mark, v, hu, hmark, hv, rfl⟩
  · rintro ⟨u, mark, v, hu, hmark, hv, rfl⟩
    exact Language.append_mem_mul hu (cons_mem_one_mul.mpr ⟨hmark, hv⟩)

/-- No decimal number contains an exponent mark, so that the first one is where it ends. -/
theorem splitScientific_append (hu : u ∈ decimal) (hmark : IsExponentMark mark) :
    splitScientific (u ++ mark :: v) = (u, dropPlus v) := by
  have hunmarked : ∀ c ∈ u, (!isExponentMark c) = true := by
    intro c hc
    rw [Bool.not_eq_true']
    refine Bool.eq_false_iff.mpr fun hmarked => ?_
    rcases (Pattern.isExponentMark_iff c).mp hmarked with rfl | rfl <;>
      exact absurd (mem_decimal hu hc) (by decide)
  have hmarked : (!isExponentMark mark) = false := by
    rw [(Pattern.isExponentMark_iff mark).mpr hmark]
    rfl
  rw [splitScientific, List.takeWhile_append_of_pos hunmarked,
    List.dropWhile_append_of_pos hunmarked]
  simp [hmarked]

/-! ## The sign -/

/-- A plus sign, if the text has one. -/
def plusIn (text : List Char) : List Char :=
  if '+' ∈ text then ['+'] else []

theorem plus_not_mem_digits (h : v ∈ digits) : '+' ∉ v :=
  fun hplus => absurd ((mem_run.mp h).2 _ hplus) (by decide)

theorem plus_not_mem_exponent (h : v ∈ exponent) : '+' ∉ v := by
  rcases mem_signed.mp h with h | ⟨_, rest, rfl, hrest, rfl⟩
  · exact plus_not_mem_digits h
  · exact List.not_mem_cons_of_ne_of_not_mem (by decide) (plus_not_mem_digits hrest)

theorem dropPlus_eq_self (h : '+' ∉ v) : dropPlus v = v := by
  unfold dropPlus
  split
  · exact absurd (.head _) h
  · rfl

/-- What is cut off behind the mark is one plus sign, if there is any. -/
theorem dropPlus_signed (h : v ∈ (1 + one IsSign) * digits) :
    dropPlus v ∈ exponent ∧ v = plusIn v ++ dropPlus v := by
  have hkept (hv : v ∈ exponent) : dropPlus v ∈ exponent ∧ v = plusIn v ++ dropPlus v := by
    have hplus := plus_not_mem_exponent hv
    rw [dropPlus_eq_self hplus, plusIn, if_neg hplus]
    exact ⟨hv, rfl⟩
  rcases mem_signed.mp h with h | ⟨_, rest, rfl | rfl, hrest, rfl⟩
  · exact hkept (mem_signed.mpr (.inl h))
  · refine ⟨mem_signed.mpr (.inl hrest), ?_⟩
    rw [plusIn, if_pos (.head _)]
    rfl
  · exact hkept (mem_signed.mpr (.inr ⟨_, rest, rfl, hrest, rfl⟩))

theorem signed_of_exponent (h : v ∈ exponent) : v ∈ (1 + one IsSign) * digits := by
  rcases mem_signed.mp h with h | ⟨_, rest, rfl, hrest, rfl⟩
  · exact mem_signed.mpr (.inl h)
  · exact mem_signed.mpr (.inr ⟨_, rest, .inr rfl, hrest, rfl⟩)

theorem plusIn_scientific (hu : u ∈ decimal) (hmark : IsExponentMark mark) :
    plusIn (u ++ mark :: v) = plusIn v := by
  have hiff : '+' ∈ u ++ mark :: v ↔ '+' ∈ v := by
    have hnot : '+' ∉ u := fun hplus => absurd (mem_decimal hu hplus) (by decide)
    have hne : '+' ≠ mark := by
      rcases hmark with rfl | rfl <;> decide
    simp [hnot, hne]
  simp only [plusIn, hiff]

/-- A text in its parts: a decimal number, a mark, a plus sign where there is one, and an exponent. -/
structure Parts (text significand exponent : List Char) : Prop where
  decimal : Pattern.decimal.Covers significand
  signed : exponent ∈ Numeral.exponent
  written : ∃ mark, IsExponentMark mark ∧ text = significand ++ mark :: (plusIn text ++ exponent)

end Numeral

namespace Rules

open Numeral Spelling

variable {S : Scope} (rules : Rules S)

/-- A text is taken by the tokenizer of numbers with an exponent as one token, and in two parts. -/
def ReadsScientific (text significand exponent : String) : Prop :=
  Grammar.scientificTokenizer.parse rules text =
    .ok (.ok ⟨0, text.length, .scientific significand exponent, text⟩)

theorem scientificTokenizer_reads :
    (rules.parser .scientificTokenizer).Reads (.ofPattern Pattern.scientific fun text =>
      .scientific (.ofList (splitScientific text).1) (.ofList (splitScientific text).2)) :=
  rules.tokenize_pattern_reads .scientific
    (fun _ text => .scientific (.ofList (splitScientific text).1) (.ofList (splitScientific text).2))
    "scientific notation"

theorem readsScientific {text : String} {u v : List Char} {mark : Char} (hu : u ∈ decimal)
    (hmark : IsExponentMark mark) (hv : v ∈ (1 + one IsSign) * digits)
    (htext : text.toList = u ++ mark :: v) :
    rules.ReadsScientific text (.ofList u) (.ofList (dropPlus v)) := by
  have htaken : Pattern.scientific text.toList = some text.length := by
    rw [← String.length_toList]
    exact Pattern.takes_scientific.takes_all (mem_scientific.mpr ⟨u, mark, v, hu, hmark, hv, htext⟩)
  refine rules.parse_of_reads rules.scientificTokenizer_reads ?_
  rw [Reader.ofPattern, htaken, Option.map_some, ← String.length_toList, List.take_length, htext,
    splitScientific_append hu hmark]

/-- **Numbers with an exponent are split without loss.** What the pattern matches completely is one
token. Its first part is a decimal number and its second an exponent with digits and at most a minus
sign; a mark between them and a plus sign, where the text has one, make the text of them. With an `e`
between them they are a number again, and its parts are the same. -/
theorem scientificTokenizer_splits {text : String} (h : Pattern.scientific.Covers text.toList) :
    ∃ significand exponent : String, rules.ReadsScientific text significand exponent ∧
      Parts text.toList significand.toList exponent.toList ∧
      Pattern.scientific.Covers (significand ++ "e" ++ exponent).toList ∧
      rules.ReadsScientific (significand ++ "e" ++ exponent) significand exponent := by
  obtain ⟨u, mark, v, hu, hmark, hv, htext⟩ :=
    mem_scientific.mp (Pattern.takes_scientific.covers_iff.mp h)
  obtain ⟨hexponent, hplus⟩ := dropPlus_signed hv
  have hagain : (String.ofList u ++ "e" ++ String.ofList (dropPlus v)).toList =
      u ++ 'e' :: dropPlus v := by
    simp
  have hsigned := signed_of_exponent hexponent
  refine ⟨.ofList u, .ofList (dropPlus v), rules.readsScientific hu hmark hv htext, ?_, ?_, ?_⟩
  · rw [String.toList_ofList, String.toList_ofList]
    refine ⟨Pattern.takes_decimal.covers_iff.mpr hu, hexponent, mark, hmark, ?_⟩
    rw [htext, plusIn_scientific hu hmark, ← hplus]
  · rw [hagain]
    exact Pattern.takes_scientific.covers_iff.mpr
      (mem_scientific.mpr ⟨u, 'e', _, hu, .inl rfl, hsigned, rfl⟩)
  · have hreads := rules.readsScientific hu (.inl rfl) hsigned hagain
    rwa [dropPlus_eq_self (plus_not_mem_exponent hexponent)] at hreads

/-- The mark may be of either case, and a plus sign is not part of the exponent. -/
theorem plus_sign_splits :
    Pattern.scientific.Covers "1.5E+30".toList ∧
    nestingRules.ReadsScientific "1.5E+30" "1.5" "30" ∧
    Parts "1.5E+30".toList "1.5".toList "30".toList ∧
    Pattern.scientific.Covers "1.5e30".toList ∧
    nestingRules.ReadsScientific "1.5e30" "1.5" "30" := by
  have hcovers : Pattern.scientific.Covers "1.5E+30".toList := rfl
  have hsignificand : "1.5".toList ∈ decimal := Pattern.takes_decimal.covers_iff.mp rfl
  have hdigits : ['3', '0'] ∈ digits := mem_run.mpr ⟨List.cons_ne_nil _ _,
    List.forall_mem_cons.mpr ⟨by decide, List.forall_mem_singleton.mpr (by decide)⟩⟩
  have hsigned : ['+', '3', '0'] ∈ (1 + one IsSign) * digits :=
    mem_signed.mpr (.inr ⟨'+', _, .inl rfl, hdigits, rfl⟩)
  have hparts : nestingRules.ReadsScientific "1.5E+30" "1.5" "30" :=
    nestingRules.readsScientific hsignificand (.inr rfl) hsigned rfl
  obtain ⟨significand, exponent, hreads, hsplit⟩ := nestingRules.scientificTokenizer_splits hcovers
  cases hreads.symm.trans hparts
  exact ⟨hcovers, hparts, hsplit⟩

end Rules

end Descent
