import Descent.Proofs.Pattern.Comments

/-!
Patterns tried at an index in words of a machine.

Words hold the numbers up to a limit, and an end that is greater is no index (`plus?`). The patterns
with `Within` in their names go from index to index in such words; they have no answer where they come
to such an end. As long as the text and its mark are no longer together than the limit, this can only
happen to an opening mark: where there is room for that, they end where the patterns do
(`lineCommentWithin?_eq`, `blockCommentWithin?_eq`), and where there is none they have no answer
(`literalWithin?_eq_none`).
-/

namespace Descent.Pattern

/-- The greatest index in words of 64 bits. -/
def greatestIndex : Nat :=
  UInt64.size - 1

/-- A sum, unless it is beyond the limit. -/
def plus? (limit m n : Nat) : Option Nat :=
  if m + n ≤ limit then some (m + n) else none

section

variable (limit : Nat)

/-! ## From index to index -/

/-- Where given characters end that stand at an index: as many characters behind it, if that stretch of
the text is there and holds them. -/
def literalWithin? (chars text : List Char) (start : Nat) : Option (Option Nat) :=
  (plus? limit start chars.length).map fun stop =>
    if stop ≤ text.length ∧ (text.drop start).take (stop - start) = chars then some stop else none

/-- Where the characters of a class end that stand at an index: at the first other one, or at the end of
the text. -/
def manyWithin? (inClass : Char → Bool) (text : List Char) (start : Nat) : Option Nat :=
  match (text.drop (min start text.length)).findIdx? fun c => !inClass c with
  | some count => plus? limit start count
  | none => some text.length

/-- Where white space ends, if there is any. -/
def blanksWithin? (text : List Char) (start : Nat) : Option (Option Nat) :=
  (manyWithin? limit Text.isBlank text start).map fun stop =>
    if start < stop then some stop else none

/-- Where a comment ends that goes up to the end of its line. -/
def lineCommentWithin? (mark text : List Char) (start : Nat) : Option (Option Nat) :=
  match literalWithin? limit mark text start with
  | some (some body) => (manyWithin? limit (· != '\n') text body).map some
  | answer => answer

/-- Where the first mark ends that stands at an index or after it. -/
def upToWithin? (mark text : List Char) (start : Nat) : Option (Option Nat) :=
  if start < text.length then
    match literalWithin? limit mark text start with
    | some none => upToWithin? mark text (start + 1)
    | answer => answer
  else some none
termination_by text.length - start

/-- Where a comment between marks ends. -/
def blockCommentWithin? (opening closing text : List Char) (start : Nat) : Option (Option Nat) :=
  match literalWithin? limit opening text start with
  | some (some body) => upToWithin? limit closing text body
  | answer => answer

end

/-! ## Where there is room -/

section

variable {limit m n start : Nat} {chars mark opening closing text : List Char}
  {inClass : Char → Bool}

theorem plus?_eq (h : m + n ≤ limit) : plus? limit m n = some (m + n) :=
  if_pos h

theorem plus?_eq_none (h : limit < m + n) : plus? limit m n = none :=
  if_neg (Nat.not_le.mpr h)

theorem literalWithin?_eq (h : start + chars.length ≤ limit) :
    literalWithin? limit chars text start = some ((literal chars).endAt text start) := by
  rw [literalWithin?, plus?_eq h, Option.map_some, Nat.add_sub_cancel_left]
  refine congrArg some (Option.ext fun stop => ?_)
  rw [Option.ite_none_right_eq_some, Option.some.injEq, endAt_literal_iff,
    List.prefix_iff_eq_take, and_assoc, eq_comm (a := chars)]
  refine ⟨fun ⟨hlength, hmatch⟩ => ⟨by omega, hmatch⟩, fun ⟨hstart, hmatch, hstop⟩ => ?_⟩
  have hlength := congrArg List.length hmatch
  rw [List.length_take, List.length_drop] at hlength
  exact ⟨by omega, hmatch, hstop⟩

theorem literalWithin?_eq_none (h : limit < start + chars.length) :
    literalWithin? limit chars text start = none := by
  rw [literalWithin?, plus?_eq_none h, Option.map_none]

theorem manyWithin?_eq (hlimit : text.length ≤ limit) (hstart : start ≤ text.length) :
    manyWithin? limit inClass text start = (many inClass).endAt text start := by
  have hcount : ((text.drop start).takeWhile inClass).length =
      (text.drop start).findIdx fun c => !inClass c := by
    rw [List.takeWhile_eq_take_findIdx_not, List.length_take,
      Nat.min_eq_left List.findIdx_le_length]
  have hend : (many inClass).endAt text start =
      some (start + (text.drop start).findIdx fun c => !inClass c) := by
    rw [endAt_of_le _ hstart, many, Option.map_some, hcount]
  rw [hend, manyWithin?, Nat.min_eq_left hstart]
  cases hfound : (text.drop start).findIdx? fun c => !inClass c with
  | some count =>
    obtain ⟨hlt, heq⟩ := List.findIdx?_eq_some_iff_findIdx_eq.mp hfound
    rw [List.length_drop] at hlt
    rw [heq]
    exact plus?_eq (by omega)
  | none =>
    have hall := List.findIdx?_eq_none_iff_findIdx_eq.mp hfound
    rw [hall, List.length_drop, Nat.add_sub_cancel' hstart]

theorem blanksWithin?_eq (hlimit : text.length ≤ limit) :
    blanksWithin? limit text start = some (blanks.endAt text start) := by
  rcases Nat.lt_or_ge text.length start with hpast | hstart
  · have hend : manyWithin? limit Text.isBlank text start = some text.length := by
      rw [manyWithin?, Nat.min_eq_right (Nat.le_of_lt hpast), List.drop_length, List.findIdx?_nil]
    rw [blanksWithin?, hend, Option.map_some, if_neg (Nat.not_lt.mpr (Nat.le_of_lt hpast)),
      endAt_of_length_lt _ hpast]
  · rw [blanksWithin?, manyWithin?_eq hlimit hstart, endAt_of_le _ hstart, endAt_of_le _ hstart, many]
    simp only [Option.map_some, blanks, oneOrMore, Nat.lt_add_right_iff_pos]
    split <;> rfl

theorem lineCommentWithin?_eq (hstart : start + mark.length ≤ limit)
    (hlimit : text.length ≤ limit) :
    lineCommentWithin? limit mark text start = some ((lineComment mark).endAt text start) := by
  rw [lineCommentWithin?, literalWithin?_eq hstart, lineComment, endAt_andThen (fits_literal mark)]
  cases hbody : (literal mark).endAt text start with
  | some body =>
    have hbounds := (fits_literal mark).endAt_bounds hbody
    have hend : (many (· != '\n')).endAt text body = some _ := endAt_of_le _ hbounds.2
    simp only [manyWithin?_eq hlimit hbounds.2, Option.bind_some, hend, Option.map_some]
  | none => rfl

/-- The first mark stands here or is the first after this place. -/
theorem endAt_upTo (mark : List Char) (h : start < text.length) : (upTo mark).endAt text start =
    ((literal mark).endAt text start).or ((upTo mark).endAt text (start + 1)) := by
  rw [endAt_of_le _ (Nat.le_of_lt h), endAt_of_le _ (Nat.le_of_lt h), endAt_of_le _ h,
    List.drop_eq_getElem_cons h, upTo, literal]
  split
  · rfl
  · rw [Option.map_none, Option.none_or, Option.map_map]
    exact congrArg (Option.map · _) (funext fun n => (Nat.add_assoc start 1 n).symm)

theorem upToWithin?_eq (hlimit : text.length + mark.length ≤ limit) :
    upToWithin? limit mark text start = some ((upTo mark).endAt text start) := by
  fun_induction upToWithin? limit mark text start with
  | case1 start hlt hmark ih =>
    rw [literalWithin?_eq (by omega)] at hmark
    rw [ih, endAt_upTo mark hlt, Option.some.inj hmark, Option.none_or]
  | case2 start hlt hmark =>
    have hfound : literalWithin? limit mark text start = _ := literalWithin?_eq (by omega)
    rw [hfound] at hmark ⊢
    rw [endAt_upTo mark hlt]
    cases hend : (literal mark).endAt text start with
    | some stop => rfl
    | none => exact absurd (congrArg some hend) hmark
  | case3 start hge =>
    have hnone : (upTo mark).endAt text start = none := by
      rw [endAt]
      split
      · rw [List.drop_eq_nil_of_le (Nat.not_lt.mp hge)]; rfl
      · rfl
    rw [hnone]

theorem blockCommentWithin?_eq (hstart : start + opening.length ≤ limit)
    (hlimit : text.length + closing.length ≤ limit) :
    blockCommentWithin? limit opening closing text start =
      some ((blockComment opening closing).endAt text start) := by
  rw [blockCommentWithin?, literalWithin?_eq hstart, blockComment,
    endAt_andThen (fits_literal opening)]
  cases (literal opening).endAt text start with
  | some body => exact upToWithin?_eq hlimit
  | none => rfl

/-- A comment between marks is not looked for where there is no room for the opening mark. -/
theorem blockCommentWithin?_eq_none (h : limit < start + opening.length) :
    blockCommentWithin? limit opening closing text start = none := by
  rw [blockCommentWithin?, literalWithin?_eq_none h]

end

end Descent.Pattern
