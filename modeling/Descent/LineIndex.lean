/-!
Lines and columns. A `LineIndex` knows where the lines of a text start, and turns an index into the
text into a line and a column, both counted from one.
-/

namespace Descent

/-- A place in a text as a reader names it; lines and columns are counted from one. -/
structure Location where
  line : Nat
  column : Nat
deriving Repr, DecidableEq

/-- Where the lines of a text start, in increasing order, and how long the text is. -/
structure LineIndex where
  starts : List Nat
  length : Nat
deriving Repr, DecidableEq

namespace LineIndex

/-- The indexes after each line break of a text whose first character has index `start`. -/
def startsAfterBreaks (start : Nat) : List Char → List Nat
  | [] => []
  | c :: rest =>
    if c = '\n' then (start + 1) :: startsAfterBreaks (start + 1) rest
    else startsAfterBreaks (start + 1) rest

/-- The lines of a text; the first one starts at its beginning. -/
def ofText (text : List Char) : LineIndex where
  starts := 0 :: startsAfterBreaks 0 text
  length := text.length

/-- The place of an index; one past the end counts as the end. The line is the last that starts at
or before the index. -/
def locate (lines : LineIndex) (index : Nat) : Location :=
  let index := min index lines.length
  let before := lines.starts.filter (· ≤ index)
  ⟨before.length, index - before.getLastD 0 + 1⟩

/-- How many lines the text has; an empty text has one. -/
def count (lines : LineIndex) : Nat :=
  lines.starts.length

theorem lt_of_mem_startsAfterBreaks {text : List Char} {start i : Nat}
    (h : i ∈ startsAfterBreaks start text) : start < i ∧ i ≤ start + text.length := by
  induction text generalizing start with
  | nil => cases h
  | cons c rest ih =>
    simp only [startsAfterBreaks] at h
    rw [List.length_cons]
    split at h
    · rcases List.mem_cons.mp h with rfl | h
      · omega
      · have := ih h; omega
    · have := ih h; omega

/-- A text has one line more than it has line breaks. -/
theorem count_ofText (text : List Char) : (ofText text).count = text.count '\n' + 1 := by
  suffices h : ∀ start, (startsAfterBreaks start text).length = text.count '\n' by
    simp [count, ofText, h]
  intro start
  induction text generalizing start with
  | nil => rfl
  | cons c rest ih =>
    by_cases hc : c = '\n' <;> simp [startsAfterBreaks, hc, ih]

end LineIndex

end Descent
