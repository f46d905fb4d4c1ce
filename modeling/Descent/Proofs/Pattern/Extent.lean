import Descent.Pattern.Comment
import Descent.Pattern.Number
import Descent.Pattern.Quoted
import Descent.Pattern.Word

/-!
How far patterns reach. A pattern `Fits` if it never takes more characters than there are; the
patterns of the library do (`Standard.fits`), and so does quoted text. Seen from an index, a match
then ends between the index and the end of the text (`Fits.endAt_bounds`). Words, numbers and quoted
text also take at least one character (`Advances`).
-/

namespace Descent.Pattern

/-- A pattern that never takes more characters than there are. -/
def Fits (pattern : Pattern) : Prop :=
  ∀ text n, pattern text = some n → n ≤ text.length

variable {p q : Pattern}

/-! ## Building blocks -/

theorem fits_many (inClass : Char → Bool) : (many inClass).Fits := by
  rintro text n ⟨⟩
  exact takeWhile_length_le inClass text

theorem fits_oneOrMore (inClass : Char → Bool) : (oneOrMore inClass).Fits := by
  intro text n h
  simp only [oneOrMore] at h
  split at h
  · cases h; exact takeWhile_length_le inClass text
  · cases h

theorem fits_andThen (hp : p.Fits) (hq : q.Fits) : (andThen p q).Fits := by
  intro text n h
  unfold andThen at h
  split at h
  · rename_i m hm
    obtain ⟨k, hk, rfl⟩ := Option.map_eq_some_iff.mp h
    have hpm := hp text m hm
    have hqk := hq _ k hk
    rw [List.length_drop] at hqk
    omega
  · cases h

theorem fits_headThen (inClass : Char → Bool) (hq : q.Fits) : (headThen inClass q).Fits := by
  intro text n h
  cases text with
  | nil => cases h
  | cons c rest =>
    simp only [headThen] at h
    split at h
    · obtain ⟨k, hk, rfl⟩ := Option.map_eq_some_iff.mp h
      have hqk := hq rest k hk
      rw [List.length_cons]
      omega
    · cases h

theorem fits_literal (chars : List Char) : (literal chars).Fits := by
  intro text n h
  obtain ⟨hbegins, rfl⟩ := literal_eq_some.mp h
  exact hbegins.length_le

theorem fits_literalIgnoringCase (chars : List Char) : (literalIgnoringCase chars).Fits := by
  intro text n h
  unfold literalIgnoringCase at h
  split at h
  · rename_i hbegins
    cases h
    exact beginsIgnoringCase_length hbegins
  · cases h

/-! ## Numbers -/

theorem fits_fraction : fraction.Fits :=
  fits_headThen _ (fits_oneOrMore _)

theorem fits_decimal : decimal.Fits := by
  intro text n h
  unfold decimal at h
  cases hm : integer text with
  | none => rw [hm] at h; exact fits_fraction text n h
  | some m =>
    have hlength := fits_oneOrMore _ text m hm
    rw [hm] at h
    cases h
    cases hk : fraction (text.drop m) with
    | none => exact hlength
    | some k =>
      have hfraction := fits_fraction _ k hk
      rw [List.length_drop] at hfraction
      rw [Option.getD_some]
      omega

theorem fits_signedInteger : signedInteger.Fits := by
  intro text n h
  cases text with
  | nil => cases h
  | cons c rest =>
    simp only [signedInteger] at h
    split at h
    · obtain ⟨k, hk, rfl⟩ := Option.map_eq_some_iff.mp h
      have hlength := fits_oneOrMore _ rest k hk
      rw [List.length_cons]
      omega
    · exact fits_oneOrMore _ (c :: rest) n h

/-! ## Comments -/

theorem upTo_le (mark : List Char) {text : List Char} {n : Nat} (h : upTo mark text = some n) :
    n ≤ text.length := by
  induction text generalizing n with
  | nil => cases h
  | cons c rest ih =>
    unfold upTo at h
    split at h
    · rename_i hmark
      cases h
      exact (List.isPrefixOf_iff_prefix.mp hmark).length_le
    · obtain ⟨k, hk, rfl⟩ := Option.map_eq_some_iff.mp h
      have hlength := ih hk
      rw [List.length_cons]
      omega

/-! ## Quoted text -/

theorem quotedBody_le (quote : Char) (text : List Char) {n : Nat} {content : List Char}
    (h : quotedBody quote text = some (n, content)) : n ≤ text.length := by
  fun_induction quotedBody quote text generalizing n content with
  | case1 => cases h
  | case2 => cases h; exact Nat.le_refl 1
  | case3 => cases h
  | case4 rest ih | case6 d rest _ ih =>
    obtain ⟨⟨k, inner⟩, hk, heq⟩ := Option.map_eq_some_iff.mp h
    cases heq
    have hlength := ih hk
    simp only [List.length_cons]
    omega
  | case5 => cases h; simp
  | case7 c d rest _ _ ih =>
    obtain ⟨⟨k, inner⟩, hk, heq⟩ := Option.map_eq_some_iff.mp h
    cases heq
    have hlength := ih hk
    simp only [List.length_cons] at hlength ⊢
    omega

theorem quotedEndAt_bounds {quote : Char} {text : List Char} {start stop : Nat}
    {content : List Char} (h : quotedEndAt quote text start = some (stop, content)) :
    start ≤ stop ∧ stop ≤ text.length := by
  unfold quotedEndAt at h
  split at h
  · obtain ⟨⟨n, inner⟩, hn, heq⟩ := Option.map_eq_some_iff.mp h
    cases heq
    have hdrop : (text.drop start).length = text.length - start := List.length_drop
    cases hrest : text.drop start with
    | nil => rw [hrest] at hn; cases hn
    | cons c rest =>
      rw [hrest] at hn hdrop
      simp only [quoted] at hn
      split at hn
      · obtain ⟨⟨k, inner'⟩, hk, heq⟩ := Option.map_eq_some_iff.mp hn
        cases heq
        have hbody := quotedBody_le quote rest hk
        rw [List.length_cons] at hdrop
        omega
      · cases hn
  · cases h

/-! ## All patterns -/

/-- The patterns of the library. -/
inductive Standard : Pattern → Prop where
  | blanks : Standard blanks
  | identifier : Standard identifier
  | integer : Standard integer
  | decimal : Standard decimal
  | scientific : Standard scientific
  | hexInteger : Standard hexInteger
  | octalInteger : Standard octalInteger
  | decimalInteger : Standard decimalInteger
  | literal (chars : List Char) : Standard (literal chars)
  | literalIgnoringCase (chars : List Char) : Standard (literalIgnoringCase chars)
  | lineComment (mark : List Char) : Standard (lineComment mark)
  | blockComment (opening closing : List Char) : Standard (blockComment opening closing)

theorem Standard.fits (h : p.Standard) : p.Fits := by
  cases h with
  | blanks => exact fits_oneOrMore _
  | identifier => exact fits_headThen _ (fits_many _)
  | integer => exact fits_oneOrMore _
  | decimal => exact fits_decimal
  | scientific => exact fits_andThen fits_decimal (fits_headThen _ fits_signedInteger)
  | hexInteger => exact fits_headThen _ (fits_headThen _ (fits_oneOrMore _))
  | octalInteger => exact fits_headThen _ (fits_many _)
  | decimalInteger => exact fits_headThen _ (fits_many _)
  | literal chars => exact fits_literal chars
  | literalIgnoringCase chars => exact fits_literalIgnoringCase chars
  | lineComment mark => exact fits_andThen (fits_literal mark) (fits_many _)
  | blockComment opening closing =>
    exact fits_andThen (fits_literal opening) fun _ _ => upTo_le closing

/-! ## Seen from an index -/

theorem endAt_eq_some_iff {text : List Char} {start stop : Nat} : p.endAt text start = some stop ↔
    start ≤ text.length ∧ ∃ n, p (text.drop start) = some n ∧ start + n = stop := by
  unfold endAt
  split
  · rename_i hstart
    rw [Option.map_eq_some_iff, and_iff_right hstart]
  · rename_i hpast
    exact iff_of_false nofun fun h => hpast h.1

theorem Fits.endAt_bounds (hp : p.Fits) {text : List Char} {start stop : Nat}
    (h : p.endAt text start = some stop) : start ≤ stop ∧ stop ≤ text.length := by
  obtain ⟨hstart, n, hn, rfl⟩ := endAt_eq_some_iff.mp h
  have hlength := hp _ n hn
  rw [List.length_drop] at hlength
  omega

/-- The second of two patterns begins where the first one ends. -/
theorem endAt_andThen_iff (hp : p.Fits) {text : List Char} {start stop : Nat} :
    (andThen p q).endAt text start = some stop ↔
      ∃ middle, p.endAt text start = some middle ∧ q.endAt text middle = some stop := by
  simp only [endAt_eq_some_iff]
  constructor
  · rintro ⟨hstart, n, hn, rfl⟩
    unfold andThen at hn
    split at hn
    · rename_i m hm
      obtain ⟨k, hk, rfl⟩ := Option.map_eq_some_iff.mp hn
      have hlength := hp _ m hm
      rw [List.length_drop] at hlength
      rw [List.drop_drop] at hk
      exact ⟨start + m, ⟨hstart, m, hm, rfl⟩, by omega, k, hk, Nat.add_assoc _ _ _⟩
    · cases hn
  · rintro ⟨_, ⟨hstart, m, hm, rfl⟩, -, k, hk, rfl⟩
    rw [← List.drop_drop] at hk
    refine ⟨hstart, m + k, ?_, (Nat.add_assoc _ _ _).symm⟩
    simp only [andThen, hm, hk, Option.map_some]

theorem endAt_andThen (hp : p.Fits) (text : List Char) (start : Nat) :
    (andThen p q).endAt text start = (p.endAt text start).bind (q.endAt text) :=
  Option.ext fun _ => (endAt_andThen_iff hp).trans Option.bind_eq_some_iff.symm

/-! ## Patterns that take something -/

/-- A pattern that takes at least one character where it matches. -/
def Advances (pattern : Pattern) : Prop :=
  ∀ text n, pattern text = some n → 0 < n

theorem advances_oneOrMore (inClass : Char → Bool) : (oneOrMore inClass).Advances := by
  intro text n h
  simp only [oneOrMore] at h
  split at h
  · rename_i hpos
    cases h
    exact hpos
  · cases h

theorem advances_headThen (inClass : Char → Bool) (q : Pattern) :
    (headThen inClass q).Advances := by
  intro text n h
  cases text with
  | nil => cases h
  | cons c rest =>
    simp only [headThen] at h
    split at h
    · obtain ⟨k, -, rfl⟩ := Option.map_eq_some_iff.mp h
      omega
    · cases h

theorem advances_andThen (hp : p.Advances) (q : Pattern) : (andThen p q).Advances := by
  intro text n h
  unfold andThen at h
  split at h
  · rename_i m hm
    obtain ⟨k, -, rfl⟩ := Option.map_eq_some_iff.mp h
    have hpos := hp text m hm
    omega
  · cases h

theorem advances_decimal : decimal.Advances := by
  intro text n h
  unfold decimal at h
  cases hm : integer text with
  | none => rw [hm] at h; exact advances_headThen _ _ text n h
  | some m =>
    have hpos := advances_oneOrMore _ text m hm
    rw [hm] at h
    cases h
    omega

theorem Advances.endAt_lt (hp : p.Advances) {text : List Char} {start stop : Nat}
    (h : p.endAt text start = some stop) : start < stop := by
  obtain ⟨-, n, hn, rfl⟩ := endAt_eq_some_iff.mp h
  have hpos := hp _ n hn
  omega

theorem quotedEndAt_lt {quote : Char} {text : List Char} {start stop : Nat}
    {content : List Char} (h : quotedEndAt quote text start = some (stop, content)) :
    start < stop := by
  unfold quotedEndAt at h
  split at h
  · obtain ⟨⟨n, inner⟩, hn, heq⟩ := Option.map_eq_some_iff.mp h
    cases heq
    cases hrest : text.drop start with
    | nil => rw [hrest] at hn; cases hn
    | cons c rest =>
      rw [hrest] at hn
      simp only [quoted] at hn
      split at hn
      · obtain ⟨⟨k, inner'⟩, -, heq⟩ := Option.map_eq_some_iff.mp hn
        cases heq
        omega
      · cases hn
  · cases h

end Descent.Pattern
