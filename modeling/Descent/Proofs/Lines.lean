import Descent.LineIndex
import Mathlib.Data.List.Induction

/-!
Lines and columns, counted.

The starts of lines up to an index are the starts of the lines of the text up to there
(`LineIndex.starts_filter`). So the line of an index is one more than the line breaks before it, and the
last of the starts is behind the last of these breaks (`LineIndex.startsLine_getLastD`). The starts
increase, and a search among them that says where an index is, or where it would have to be put in,
leads to the same line without looking beside the list or subtracting too much
(`LineIndex.locateBy?_eq_locate`). Going on in a text, the place goes on in reading order.
-/

namespace Descent

/-- In reading order one place comes before another: on an earlier line, or further left on the same. -/
def Location.Precedes (first second : Location) : Prop :=
  first.line < second.line ∨ first.line = second.line ∧ first.column < second.column

namespace LineIndex

/-- The line that an index of a text is on starts at another index: behind the last line break before
it, or at the beginning of the text if there is none. -/
structure StartsLine (text : List Char) (index start : Nat) : Prop where
  le : start ≤ index
  begins : start = 0 ∨ ∃ k, start = k + 1 ∧ text[k]? = some '\n'
  unbroken : ∀ k, start ≤ k → k < index → text[k]? ≠ some '\n'

namespace StartsLine

variable {text : List Char} {index start other : Nat}

/-- A line has one start. -/
theorem unique (h : StartsLine text index start) (h' : StartsLine text index other) :
    start = other := by
  have hle {start other : Nat} (h : StartsLine text index start) (h' : StartsLine text index other) :
      other ≤ start := by
    rcases h'.begins with rfl | ⟨k, rfl, hbreak⟩
    · exact Nat.zero_le start
    · by_contra hlt
      exact h.unbroken k (by omega) h'.le hbreak
  exact Nat.le_antisymm (hle h' h) (hle h h')

/-- The line goes on as long as there is no line break. -/
theorem extend (h : StartsLine text index start) {later : Nat} (hle : index ≤ later)
    (hnone : ∀ k, index ≤ k → k < later → text[k]? ≠ some '\n') : StartsLine text later start where
  le := Nat.le_trans h.le hle
  begins := h.begins
  unbroken k hk hlater := by
    rcases Nat.lt_or_ge k index with hlt | hge
    · exact h.unbroken k hk hlt
    · exact hnone k hge hlater

/-- What comes behind the index does not matter. -/
theorem of_take (h : StartsLine (text.take index) index start) : StartsLine text index start where
  le := h.le
  begins := by
    refine h.begins.imp_right ?_
    rintro ⟨k, rfl, hbreak⟩
    rw [List.getElem?_take_of_lt h.le] at hbreak
    exact ⟨k, rfl, hbreak⟩
  unbroken k hk hlt := by
    have hnone := h.unbroken k hk hlt
    rwa [List.getElem?_take_of_lt hlt] at hnone

end StartsLine

/-! ## The starts of lines -/

theorem startsAfterBreaks_append (start : Nat) (text more : List Char) :
    startsAfterBreaks start (text ++ more) =
      startsAfterBreaks start text ++ startsAfterBreaks (start + text.length) more := by
  induction text generalizing start with
  | nil => rfl
  | cons c rest ih =>
    have hlength : start + (c :: rest).length = start + 1 + rest.length := by
      rw [List.length_cons]; omega
    rw [List.cons_append, startsAfterBreaks, startsAfterBreaks, ih, hlength]
    split <;> rfl

theorem startsAfterBreaks_filter (start n : Nat) (text : List Char) :
    (startsAfterBreaks start text).filter (· ≤ start + n) =
      startsAfterBreaks start (text.take n) := by
  induction text generalizing start n with
  | nil => rw [List.take_nil]; rfl
  | cons c rest ih =>
    cases n with
    | zero =>
      rw [List.take_zero, startsAfterBreaks, List.filter_eq_nil_iff]
      intro i hi
      have hbehind := lt_of_mem_startsAfterBreaks hi
      simp only [decide_eq_true_eq]
      omega
    | succ n =>
      have hsum : start + (n + 1) = start + 1 + n := by omega
      rw [List.take_succ_cons, startsAfterBreaks, startsAfterBreaks, hsum, ← ih (start + 1) n]
      split
      · rw [List.filter_cons_of_pos (by simp)]
      · rfl

/-- The lines that start up to an index are those of the text up to there. -/
theorem starts_filter (text : List Char) (index : Nat) :
    (ofText text).starts.filter (· ≤ index) = (ofText (text.take index)).starts := by
  have hbreaks := startsAfterBreaks_filter 0 index text
  rw [Nat.zero_add] at hbreaks
  rw [ofText, ofText, List.filter_cons_of_pos (by simp), hbreaks]

theorem starts_pairwise (text : List Char) : (ofText text).starts.Pairwise (· < ·) := by
  suffices h : ∀ start, (startsAfterBreaks start text).Pairwise (· < ·) from
    List.pairwise_cons.mpr ⟨fun i hi => (lt_of_mem_startsAfterBreaks hi).1, h 0⟩
  induction text with
  | nil => exact fun _ => .nil
  | cons c rest ih =>
    intro start
    rw [startsAfterBreaks]
    split
    · exact List.pairwise_cons.mpr ⟨fun i hi => (lt_of_mem_startsAfterBreaks hi).1, ih _⟩
    · exact ih _

/-- The last line of a text starts behind its last line break. The induction is from the end. -/
theorem startsLine_getLastD (text : List Char) :
    StartsLine text text.length ((ofText text).starts.getLastD 0) := by
  induction text using List.reverseRecOn with
  | nil => exact ⟨Nat.le_refl 0, .inl rfl, fun k _ hk => absurd hk (Nat.not_lt_zero k)⟩
  | append_singleton text c ih =>
    have hstarts : (ofText (text ++ [c])).starts =
        (ofText text).starts ++ startsAfterBreaks text.length [c] := by
      rw [ofText, ofText, startsAfterBreaks_append, Nat.zero_add, List.cons_append]
    rw [hstarts, List.length_append, List.length_singleton]
    by_cases hc : c = '\n'
    · subst hc
      have hlast : startsAfterBreaks text.length ['\n'] = [text.length + 1] := rfl
      rw [hlast, List.getLastD_concat]
      exact ⟨Nat.le_refl _, .inr ⟨text.length, rfl, by simp⟩, fun k hk hlt => by omega⟩
    · have hnone : startsAfterBreaks text.length [c] = [] := by simp [startsAfterBreaks, hc]
      rw [hnone, List.append_nil]
      have hbefore : StartsLine (text ++ [c]) text.length ((ofText text).starts.getLastD 0) := by
        refine .of_take ?_
        rwa [List.take_left]
      refine hbefore.extend (Nat.le_succ _) fun k hk hlt => ?_
      rw [show k = text.length by omega]
      simpa using hc

/-! ## By counting -/

section

variable (text : List Char) (index : Nat)

theorem locate_eq : (ofText text).locate index =
    ⟨(text.take (min index text.length)).count '\n' + 1, min index text.length -
      (ofText (text.take (min index text.length))).starts.getLastD 0 + 1⟩ := by
  rw [← count_ofText, count, ← starts_filter]
  rfl

theorem exists_startsLine : ∃ start, StartsLine text (min index text.length) start ∧
    (ofText text).locate index =
      ⟨1 + (text.take (min index text.length)).count '\n', min index text.length - start + 1⟩ := by
  have hstart := startsLine_getLastD (text.take (min index text.length))
  rw [List.length_take, Nat.min_assoc, Nat.min_self] at hstart
  exact ⟨_, hstart.of_take, by rw [locate_eq, Nat.add_comm 1]⟩

end

/-- Going on from one index of a text to a later one, one goes on in reading order: beyond a line break
on a later line, and up to the next one on the same line to the right. -/
theorem locate_precedes {text : List Char} {i j : Nat} (hlt : i < j) (hj : j ≤ text.length) :
    ((ofText text).locate i).Precedes ((ofText text).locate j) := by
  obtain ⟨start, hstart, hi⟩ := exists_startsLine text i
  obtain ⟨start', hstart', hj'⟩ := exists_startsLine text j
  rw [Nat.min_eq_left (by omega)] at hstart hi hstart' hj'
  rw [hi, hj']
  have hsplit : text.take j = text.take i ++ (text.drop i).take (j - i) := by
    rw [← List.take_add, Nat.add_sub_cancel' (Nat.le_of_lt hlt)]
  by_cases hbreak : '\n' ∈ (text.drop i).take (j - i)
  · left
    have hpos := List.count_pos_iff.mpr hbreak
    simp only [hsplit, List.count_append]
    omega
  · right
    have hnone : ∀ k, i ≤ k → k < j → text[k]? ≠ some '\n' := by
      intro k hk hkj hnewline
      have hwithin : ((text.drop i).take (j - i))[k - i]? = some '\n' := by
        rw [List.getElem?_take_of_lt (by omega), List.getElem?_drop, Nat.add_sub_cancel' hk]
        exact hnewline
      exact hbreak (List.mem_of_getElem? hwithin)
    have hsame := hstart'.unique (hstart.extend (Nat.le_of_lt hlt) hnone)
    have hle := hstart.le
    simp only [hsplit, List.count_append, List.count_eq_zero.mpr hbreak, Nat.add_zero, hsame,
      true_and]
    omega

/-! ## By searching -/

/-- What may be said of a number in an increasing list: where it stands, or where it would have to be put
in. -/
inductive Finds (xs : List Nat) (x : Nat) : Except Nat Nat → Prop where
  | ok {i : Nat} (h : xs[i]? = some x) : Finds xs x (.ok i)
  | error {i : Nat} (within : i ≤ xs.length) (below : ∀ y ∈ xs.take i, y < x)
      (above : ∀ y ∈ xs.drop i, x < y) : Finds xs x (.error i)

/-- A search in increasing lists that says what may be said. -/
def Searches (search : List Nat → Nat → Except Nat Nat) : Prop :=
  ∀ xs x, xs.Pairwise (· < ·) → Finds xs x (search xs x)

/-- A difference, unless it is below zero. -/
def minus? (m n : Nat) : Option Nat :=
  if n ≤ m then some (m - n) else none

/-- The line of an index, by what is said of the index among the starts of lines: the line that starts
there, or the one before that which could. -/
def line? : Except Nat Nat → Option Nat
  | .ok line => some line
  | .error next => minus? next 1

/-- The place of an index by a search among the starts of lines. There is none if anything is subtracted
from less, or if there is no such line. -/
def locateBy? (search : List Nat → Nat → Except Nat Nat) (lines : LineIndex) (index : Nat) :
    Option Location := do
  let index := min index lines.length
  let line ← line? (search lines.starts index)
  let start ← lines.starts[line]?
  let column ← minus? index start
  return ⟨line + 1, column + 1⟩

theorem filter_le_eq_take {xs : List Nat} {x n : Nat} (below : ∀ y ∈ xs.take n, y ≤ x)
    (above : ∀ y ∈ xs.drop n, x < y) : xs.filter (· ≤ x) = xs.take n := by
  have hbelow : (xs.take n).filter (· ≤ x) = xs.take n :=
    List.filter_eq_self.mpr fun y hy => decide_eq_true (below y hy)
  have habove : (xs.drop n).filter (· ≤ x) = [] :=
    List.filter_eq_nil_iff.mpr fun y hy => by simpa using above y hy
  calc xs.filter (· ≤ x) = (xs.take n ++ xs.drop n).filter (· ≤ x) := by
        rw [List.take_append_drop]
    _ = xs.take n := by rw [List.filter_append, hbelow, habove, List.append_nil]

/-- Of an increasing list, the part up to a number that stands in it is not above it. -/
theorem Finds.ok_splits {xs : List Nat} {x i : Nat} (hxs : xs.Pairwise (· < ·))
    (h : xs[i]? = some x) : (∀ y ∈ xs.take (i + 1), y ≤ x) ∧ ∀ y ∈ xs.drop (i + 1), x < y := by
  rw [← List.take_append_drop (i + 1) xs, List.pairwise_append, List.take_add_one, h,
    Option.toList_some, List.pairwise_append] at hxs
  obtain ⟨⟨-, -, hbelow⟩, -, habove⟩ := hxs
  rw [List.take_add_one, h, Option.toList_some]
  refine ⟨fun y hy => ?_, fun y hy => habove x (by simp) y hy⟩
  rcases List.mem_append.mp hy with hy | hy
  · exact Nat.le_of_lt (hbelow y hy x (List.mem_singleton_self x))
  · exact Nat.le_of_eq (List.mem_singleton.mp hy)

/-- The line to which a search leads is the last that starts at or before the index. -/
theorem locateBy?_eq_some {search : List Nat → Nat → Except Nat Nat} {lines : LineIndex}
    {index line start : Nat} (hline : line? (search lines.starts (min index lines.length)) = some line)
    (hstart : lines.starts[line]? = some start)
    (below : ∀ y ∈ lines.starts.take (line + 1), y ≤ min index lines.length)
    (above : ∀ y ∈ lines.starts.drop (line + 1), min index lines.length < y) :
    locateBy? search lines index = some (lines.locate index) := by
  have htake : lines.starts.take (line + 1) = lines.starts.take line ++ [start] := by
    rw [List.take_add_one, hstart, Option.toList_some]
  have hle : start ≤ min index lines.length :=
    below start (htake ▸ List.mem_append_right _ (List.mem_singleton_self start))
  have hlength : (lines.starts.take line ++ [start]).length = line + 1 := by
    obtain ⟨hlt, -⟩ := List.getElem?_eq_some_iff.mp hstart
    rw [← htake, List.length_take, Nat.min_eq_left hlt]
  simp only [locateBy?, hline, hstart, minus?, if_pos hle, locate, filter_le_eq_take below above,
    htake, hlength, List.getLastD_concat, Option.bind_eq_bind, Option.bind_some, Option.pure_def]

/-- Whichever way the starts of lines are searched, nothing is looked up or subtracted in vain. -/
theorem locateBy?_eq_locate {search : List Nat → Nat → Except Nat Nat} (hsearch : Searches search)
    (text : List Char) (index : Nat) :
    (ofText text).locateBy? search index = some ((ofText text).locate index) := by
  have hincreasing := starts_pairwise text
  have hfinds := hsearch _ (min index (ofText text).length) hincreasing
  cases hfound : search (ofText text).starts (min index (ofText text).length) with
  | ok line =>
    rw [hfound] at hfinds
    obtain ⟨h⟩ := hfinds
    obtain ⟨below, above⟩ := Finds.ok_splits hincreasing h
    exact locateBy?_eq_some (by rw [hfound]; rfl) h below above
  | error next =>
    rw [hfound] at hfinds
    obtain _ | ⟨within, below, above⟩ := hfinds
    cases next with
    | zero =>
      -- the first line starts at zero, so nothing is put in before it
      exact absurd (above 0 (.head _)) (Nat.not_lt_zero _)
    | succ line =>
      have hline : line? (search (ofText text).starts (min index (ofText text).length)) =
          some line := by
        rw [hfound]
        rfl
      exact locateBy?_eq_some hline (List.getElem?_eq_getElem within)
        (fun y hy => Nat.le_of_lt (below y hy)) above

/-! ## All of it -/

/-- **Every index has its line and column.** An index past the end counts as the end. The line is one
more than the line breaks before the index, and the column one more than the distance from where the
line starts, which is not behind the index. A search among the starts of lines gives the same. And two
indexes of a text are at different places, in reading order. -/
theorem locate_ofText (text : List Char) :
    (∀ index, ∃ start, StartsLine text (min index text.length) start ∧
      (ofText text).locate index =
        ⟨1 + (text.take (min index text.length)).count '\n', min index text.length - start + 1⟩) ∧
    (∀ search, Searches search → ∀ index,
      (ofText text).locateBy? search index = some ((ofText text).locate index)) ∧
    ∀ i j, i < j → j ≤ text.length →
      ((ofText text).locate i).Precedes ((ofText text).locate j) ∧
        (ofText text).locate i ≠ (ofText text).locate j := by
  refine ⟨exists_startsLine text, fun search hsearch => locateBy?_eq_locate hsearch text,
    fun i j hlt hj => ?_⟩
  have hprecedes := locate_precedes hlt hj
  refine ⟨hprecedes, fun heq => ?_⟩
  rw [heq] at hprecedes
  rcases hprecedes with hline | ⟨-, hcolumn⟩
  · exact Nat.lt_irrefl _ hline
  · exact Nat.lt_irrefl _ hcolumn

/-! ## A text with an empty line -/

/-- Looks along a list for a number until that is found or passed. -/
def lookAlong : List Nat → Nat → Except Nat Nat
  | [], _ => .error 0
  | y :: ys, x =>
    if x < y then .error 0
    else if x = y then .ok 0
    else
      match lookAlong ys x with
      | .ok i => .ok (i + 1)
      | .error i => .error (i + 1)

theorem searches_lookAlong : Searches lookAlong := by
  intro xs x hxs
  induction xs with
  | nil => exact .error (Nat.le_refl 0) (by simp) (by simp)
  | cons y ys ih =>
    obtain ⟨hy, hys⟩ := List.pairwise_cons.mp hxs
    rw [lookAlong]
    split
    · rename_i hlt
      refine .error (Nat.zero_le _) (by simp) fun z hz => ?_
      rcases List.mem_cons.mp hz with rfl | hz
      · exact hlt
      · exact Nat.lt_trans hlt (hy z hz)
    · split
      · rename_i heq
        exact .ok (by rw [heq]; rfl)
      · have hlt : y < x := by omega
        have hfinds := ih hys
        split
        · rename_i i hi
          rw [hi] at hfinds
          obtain ⟨h⟩ := hfinds
          exact .ok h
        · rename_i i hi
          rw [hi] at hfinds
          obtain _ | ⟨within, below, above⟩ := hfinds
          refine .error (Nat.succ_le_succ within) (fun z hz => ?_) above
          rcases List.mem_cons.mp hz with rfl | hz
          · exact hlt
          · exact below z hz

/-- Three lines that end in a break, the second of them empty, and nothing on the fourth. -/
def emptyLine : List Char :=
  "ab\n\ncd\n".toList

/-- What lies past the end is on the fourth line, and the break of the first line comes before that of
the second. -/
theorem emptyLine_located :
    Searches lookAlong ∧ (ofText emptyLine).locateBy? lookAlong 12 = some ⟨4, 1⟩ ∧
    2 < 3 ∧ 3 ≤ emptyLine.length ∧
    (ofText emptyLine).locate 2 = ⟨1, 3⟩ ∧ (ofText emptyLine).locate 3 = ⟨2, 1⟩ ∧
    Location.Precedes ⟨1, 3⟩ ⟨2, 1⟩ := by
  obtain ⟨-, hsearch, hprecedes⟩ := locate_ofText emptyLine
  have hlast : (ofText emptyLine).locate 12 = ⟨4, 1⟩ := by decide
  exact ⟨searches_lookAlong, hlast ▸ hsearch _ searches_lookAlong 12, by decide, by decide,
    by decide, by decide, (hprecedes 2 3 (by decide) (by decide)).1⟩

end LineIndex

end Descent
