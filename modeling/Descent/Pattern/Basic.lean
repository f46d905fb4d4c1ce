/-!
Patterns are recognisers without a grammar around them: one looks at the text from some place on
and says how many characters it takes, or that it does not match. `Pattern.endAt` asks the same of
an index in a whole text.
-/

namespace Descent

/-- How many characters a pattern takes from the front of a text, if it matches there. -/
abbrev Pattern := List Char → Option Nat

namespace Pattern

/-- Where the match of a pattern ends when it is tried at an index of a text. Nothing matches past
the end. -/
def endAt (pattern : Pattern) (text : List Char) (start : Nat) : Option Nat :=
  if start ≤ text.length then (pattern (text.drop start)).map (start + ·) else none

/-- Any number of characters of a class. -/
def many (inClass : Char → Bool) : Pattern :=
  fun text => some (text.takeWhile inClass).length

/-- So many characters, whatever they are. -/
def units (count : Nat) : Pattern :=
  fun text => if count ≤ text.length then some count else none

/-- One or more characters of a class. -/
def oneOrMore (inClass : Char → Bool) : Pattern :=
  fun text =>
    let count := (text.takeWhile inClass).length
    if 0 < count then some count else none

/-- One pattern after another. -/
def andThen (first second : Pattern) : Pattern :=
  fun text =>
    match first text with
    | some m => (second (text.drop m)).map (m + ·)
    | none => none

/-- One character of a class, and then a pattern. -/
def headThen (inClass : Char → Bool) (tail : Pattern) : Pattern
  | c :: rest => if inClass c then (tail rest).map (1 + ·) else none
  | [] => none

/-- The given characters in order. -/
def literal (chars : List Char) : Pattern :=
  fun text => if chars.isPrefixOf text then some chars.length else none

/-- The matched count of a class never exceeds what is there. -/
theorem takeWhile_length_le (inClass : Char → Bool) (text : List Char) :
    (text.takeWhile inClass).length ≤ text.length :=
  (List.takeWhile_sublist inClass).length_le

theorem endAt_of_length_lt (pattern : Pattern) {text : List Char} {start : Nat}
    (h : text.length < start) : endAt pattern text start = none := by
  simp [endAt, Nat.not_le.mpr h]

theorem endAt_of_le (pattern : Pattern) {text : List Char} {start : Nat}
    (h : start ≤ text.length) :
    endAt pattern text start = (pattern (text.drop start)).map (start + ·) := by
  simp [endAt, h]

theorem literal_eq_some {chars text : List Char} {n : Nat} :
    literal chars text = some n ↔ chars <+: text ∧ n = chars.length := by
  have matched : chars.isPrefixOf text = true ↔ chars <+: text := List.isPrefixOf_iff_prefix
  unfold literal
  split
  · rename_i h
    constructor
    · intro hn; exact ⟨matched.mp h, (Option.some.inj hn).symm⟩
    · rintro ⟨_, rfl⟩; rfl
  · rename_i h
    constructor
    · intro hn; cases hn
    · rintro ⟨hp, _⟩; exact absurd (matched.mpr hp) h

end Pattern

end Descent
