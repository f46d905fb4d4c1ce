import Descent.Proofs.Pattern.Extent
import Mathlib.Data.Nat.Find
import Mathlib.Order.Bounds.Basic

/-!
Comments, from index to index.

A run of a class goes on up to the first other character (`RunsTo`), and a comment between marks up to
the first closing mark that begins behind the opening one (`Commented`). This is where the patterns end
that look for them (`endAt_lineComment_iff`, `endAt_blockComment_iff`), and where there is a closing mark
there is a first one, so that such a comment is found wherever both marks stand
(`exists_endAt_blockComment_iff`).
-/

namespace Descent.Pattern

variable {text mark : List Char} {inClass : Char → Bool} {start stop n : Nat}

/-! ## Runs of a class -/

/-- From one index to another stand characters of a class only, and then no other of them. -/
structure RunsTo (inClass : Char → Bool) (text : List Char) (start stop : Nat) : Prop where
  ordered : start ≤ stop
  within : stop ≤ text.length
  inside : ∀ c ∈ (text.drop start).take (stop - start), inClass c = true
  ended : ∀ c, text[stop]? = some c → inClass c = false

theorem length_takeWhile_eq_iff : (text.takeWhile inClass).length = n ↔
    n ≤ text.length ∧ (∀ c ∈ text.take n, inClass c = true) ∧
      ∀ c, text[n]? = some c → inClass c = false := by
  induction text generalizing n with
  | nil =>
    constructor
    · rintro rfl
      simp
    · exact fun h => (Nat.le_zero.mp h.1).symm
  | cons c rest ih =>
    cases n with
    | zero => cases hc : inClass c <;> simp [hc]
    | succ n => cases hc : inClass c <;> simp [hc, ih]

theorem endAt_many_iff :
    (many inClass).endAt text start = some stop ↔ RunsTo inClass text start stop := by
  have hmany n : many inClass (text.drop start) = some n ↔
      n ≤ text.length - start ∧ (∀ c ∈ (text.drop start).take n, inClass c = true) ∧
        ∀ c, text[start + n]? = some c → inClass c = false := by
    rw [many, Option.some.injEq, length_takeWhile_eq_iff, List.length_drop, List.getElem?_drop]
  simp only [endAt_eq_some_iff, hmany]
  constructor
  · rintro ⟨hstart, n, ⟨hlength, hinside, hended⟩, rfl⟩
    exact ⟨by omega, by omega, by rwa [Nat.add_sub_cancel_left], hended⟩
  · rintro ⟨hordered, hwithin, hinside, hended⟩
    refine ⟨by omega, stop - start, ⟨by omega, hinside, ?_⟩, Nat.add_sub_cancel' hordered⟩
    rwa [Nat.add_sub_cancel' hordered]

theorem RunsTo.unique {stop' : Nat} (h : RunsTo inClass text start stop)
    (h' : RunsTo inClass text start stop') : stop = stop' :=
  Option.some.inj ((endAt_many_iff.mpr h).symm.trans (endAt_many_iff.mpr h'))

/-- A run that is more than nothing begins with a character of the class. -/
theorem RunsTo.head (h : RunsTo inClass text start stop) (hlt : start < stop) :
    ∃ c rest, text.drop start = c :: rest ∧ inClass c = true := by
  have hwithin := h.within
  have hstart : start < text.length := by omega
  obtain ⟨n, rfl⟩ := Nat.exists_eq_add_of_lt hlt
  have hinside := h.inside
  rw [List.drop_eq_getElem_cons hstart, Nat.add_assoc, Nat.add_sub_cancel_left,
    List.take_succ_cons] at hinside
  exact ⟨_, _, List.drop_eq_getElem_cons hstart, hinside _ (.head _)⟩

theorem endAt_oneOrMore_iff : (oneOrMore inClass).endAt text start = some stop ↔
    start < stop ∧ RunsTo inClass text start stop := by
  have hrun n : oneOrMore inClass (text.drop start) = some n ↔
      many inClass (text.drop start) = some n ∧ 0 < n := by
    simp only [oneOrMore, many, Option.ite_none_right_eq_some, Option.some.injEq]
    constructor
    · rintro ⟨hpos, rfl⟩
      exact ⟨rfl, hpos⟩
    · rintro ⟨rfl, hpos⟩
      exact ⟨hpos, rfl⟩
  simp only [← endAt_many_iff, endAt_eq_some_iff, hrun]
  constructor
  · rintro ⟨hstart, n, ⟨hn, hpos⟩, rfl⟩
    exact ⟨Nat.lt_add_of_pos_right hpos, hstart, n, hn, rfl⟩
  · rintro ⟨hlt, hstart, n, hn, rfl⟩
    exact ⟨hstart, n, ⟨hn, by omega⟩, rfl⟩

/-! ## Marks -/

theorem endAt_literal_iff : (literal mark).endAt text start = some stop ↔
    start ≤ text.length ∧ mark <+: text.drop start ∧ start + mark.length = stop := by
  simp only [endAt_eq_some_iff, literal_eq_some]
  constructor
  · rintro ⟨hstart, _, ⟨hmark, rfl⟩, hstop⟩
    exact ⟨hstart, hmark, hstop⟩
  · rintro ⟨hstart, hmark, hstop⟩
    exact ⟨hstart, _, ⟨hmark, rfl⟩, hstop⟩

/-- The first number from another one on, counted from there. -/
theorem isLeast_from_iff {P : Nat → Prop} (first m : Nat) :
    IsLeast {k | first ≤ k ∧ P k} m ↔ ∃ k, IsLeast {k | P (first + k)} k ∧ first + k = m := by
  constructor
  · rintro ⟨⟨hfirst, hm⟩, hleast⟩
    obtain ⟨k, rfl⟩ := Nat.exists_eq_add_of_le hfirst
    refine ⟨k, ⟨hm, fun j hj => ?_⟩, rfl⟩
    exact Nat.le_of_add_le_add_left (hleast ⟨Nat.le_add_right first j, hj⟩)
  · rintro ⟨k, ⟨hk, hleast⟩, rfl⟩
    refine ⟨⟨Nat.le_add_right first k, hk⟩, ?_⟩
    rintro j ⟨hfirst, hj⟩
    obtain ⟨i, rfl⟩ := Nat.exists_eq_add_of_le hfirst
    exact Nat.add_le_add_left (hleast hj) first

/-- Where a number has a property there is a first one. -/
theorem exists_isLeast {P : Nat → Prop} (h : ∃ k, P k) : ∃ k, IsLeast {k | P k} k := by
  classical
  exact ⟨Nat.find h, Nat.find_spec h, fun k hk => Nat.find_min' h hk⟩

/-- The search for a mark ends behind the first place where it stands. -/
theorem upTo_eq_some_iff (hmark : mark ≠ []) : upTo mark text = some n ↔
    ∃ k, IsLeast {k | mark <+: text.drop k} k ∧ k + mark.length = n := by
  induction text generalizing n with
  | nil =>
    refine iff_of_false nofun ?_
    rintro ⟨k, ⟨hk, -⟩, -⟩
    have hfront : mark <+: [] := List.drop_nil ▸ hk
    exact hmark (List.prefix_nil.mp hfront)
  | cons c rest ih =>
    by_cases hfront : mark <+: c :: rest
    · rw [upTo, if_pos (List.isPrefixOf_iff_prefix.mpr hfront), Option.some.injEq]
      have hleast : IsLeast {k | mark <+: (c :: rest).drop k} 0 := ⟨hfront, fun k _ => Nat.zero_le k⟩
      constructor
      · rintro rfl
        exact ⟨0, hleast, Nat.zero_add _⟩
      · rintro ⟨k, hk, rfl⟩
        rw [hk.unique hleast, Nat.zero_add]
    · have hlater : {k | mark <+: (c :: rest).drop k} =
          {k | 1 ≤ k ∧ mark <+: (c :: rest).drop k} := by
        refine Set.ext fun k => ⟨fun hk => ⟨Nat.pos_of_ne_zero ?_, hk⟩, And.right⟩
        rintro rfl
        exact hfront hk
      rw [upTo, if_neg (mt List.isPrefixOf_iff_prefix.mp hfront), Option.map_eq_some_iff, hlater]
      simp only [ih, isLeast_from_iff, Nat.add_comm 1, List.drop_succ_cons]
      constructor
      · rintro ⟨_, ⟨k, hk, rfl⟩, rfl⟩
        exact ⟨k + 1, ⟨k, hk, rfl⟩, Nat.add_right_comm k 1 mark.length⟩
      · rintro ⟨_, ⟨k, hk, rfl⟩, rfl⟩
        exact ⟨_, ⟨k, hk, rfl⟩, Nat.add_right_comm k mark.length 1⟩

theorem endAt_upTo_iff (hmark : mark ≠ []) : (upTo mark).endAt text start = some stop ↔
    ∃ k, IsLeast {k | start ≤ k ∧ mark <+: text.drop k} k ∧ k + mark.length = stop := by
  simp only [endAt_eq_some_iff, upTo_eq_some_iff hmark, isLeast_from_iff, List.drop_drop]
  constructor
  · rintro ⟨-, _, ⟨k, hk, rfl⟩, rfl⟩
    exact ⟨start + k, ⟨k, hk, rfl⟩, Nat.add_assoc _ _ _⟩
  · rintro ⟨_, ⟨k, hk, rfl⟩, rfl⟩
    have hstart : start ≤ text.length := by
      by_contra hpast
      have hfront : mark <+: text.drop (start + k) := hk.1
      rw [List.drop_eq_nil_of_le (by omega), List.prefix_nil] at hfront
      exact hmark hfront
    exact ⟨hstart, _, ⟨k, hk, rfl⟩, (Nat.add_assoc _ _ _).symm⟩

/-! ## Comments -/

/-- From one index to another stands a comment between marks: the opening mark, and whatever there is
behind it up to the end of the first closing mark. -/
structure Commented (opening closing text : List Char) (start stop : Nat) : Prop where
  opened : opening <+: text.drop start
  closed : ∃ k, IsLeast {k | start + opening.length ≤ k ∧ closing <+: text.drop k} k ∧
    k + closing.length = stop

theorem Commented.unique {opening closing : List Char} {stop' : Nat}
    (h : Commented opening closing text start stop) (h' : Commented opening closing text start stop') :
    stop = stop' := by
  obtain ⟨-, k, hk, rfl⟩ := h
  obtain ⟨-, k', hk', rfl⟩ := h'
  rw [hk.unique hk']

theorem endAt_lineComment_iff : (lineComment mark).endAt text start = some stop ↔
    mark <+: text.drop start ∧ RunsTo (· != '\n') text (start + mark.length) stop := by
  rw [lineComment, endAt_andThen_iff (fits_literal mark)]
  simp only [endAt_literal_iff, endAt_many_iff]
  constructor
  · rintro ⟨_, ⟨-, hmark, rfl⟩, hrun⟩
    exact ⟨hmark, hrun⟩
  · rintro ⟨hmark, hrun⟩
    have hordered := hrun.ordered
    have hwithin := hrun.within
    exact ⟨_, ⟨by omega, hmark, rfl⟩, hrun⟩

variable {opening closing : List Char}

theorem endAt_blockComment_iff (hclosing : closing ≠ []) :
    (blockComment opening closing).endAt text start = some stop ↔
      Commented opening closing text start stop := by
  rw [blockComment, endAt_andThen_iff (fits_literal opening)]
  simp only [endAt_literal_iff, endAt_upTo_iff hclosing]
  constructor
  · rintro ⟨_, ⟨-, hopening, rfl⟩, hclosed⟩
    exact ⟨hopening, hclosed⟩
  · rintro ⟨hopening, k, hk, hstop⟩
    have hstart : start ≤ text.length := by
      by_contra hpast
      obtain ⟨⟨hbehind, hfront⟩, -⟩ := hk
      rw [List.drop_eq_nil_of_le (by omega), List.prefix_nil] at hfront
      exact hclosing hfront
    exact ⟨_, ⟨hstart, hopening, rfl⟩, k, hk, hstop⟩

theorem exists_endAt_blockComment_iff (hclosing : closing ≠ []) :
    (∃ stop, (blockComment opening closing).endAt text start = some stop) ↔
      opening <+: text.drop start ∧ ∃ k, start + opening.length ≤ k ∧ closing <+: text.drop k := by
  simp only [endAt_blockComment_iff hclosing]
  constructor
  · rintro ⟨stop, hopening, k, ⟨hk, -⟩, -⟩
    exact ⟨hopening, k, hk⟩
  · rintro ⟨hopening, hexists⟩
    obtain ⟨k, hk⟩ := exists_isLeast hexists
    exact ⟨_, hopening, k, hk, rfl⟩

end Descent.Pattern
