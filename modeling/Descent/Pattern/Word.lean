import Descent.Pattern.Basic
import Descent.Text.Blank
import Descent.Text.LowerCase

/-!
Words, the space between them, and fixed texts spelled in either case.
-/

namespace Descent.Pattern

/-- One or more characters of white space. -/
def blanks : Pattern :=
  oneOrMore Text.isBlank

/-- A character that may begin a name: an ASCII letter or an underscore. -/
def startsName (c : Char) : Bool :=
  c.isAlpha || c == '_'

/-- A character that may stand in a name. -/
def continuesName (c : Char) : Bool :=
  c.isAlphanum || c == '_'

/-- A name: an ASCII letter or an underscore, then letters, digits and underscores. -/
def identifier : Pattern :=
  headThen startsName (many continuesName)

/-- Does the text begin with the given characters, if case is left out of account? Characters are
compared one by one. -/
def beginsIgnoringCase : List Char → List Char → Bool
  | [], _ => true
  | _ :: _, [] => false
  | c :: chars, d :: text =>
    Text.lowerChars c == Text.lowerChars d && beginsIgnoringCase chars text

/-- The given characters in order, each in either case. -/
def literalIgnoringCase (chars : List Char) : Pattern :=
  fun text => if beginsIgnoringCase chars text then some chars.length else none

theorem beginsIgnoringCase_length {chars text : List Char}
    (h : beginsIgnoringCase chars text = true) : chars.length ≤ text.length := by
  induction chars generalizing text with
  | nil => exact Nat.zero_le _
  | cons c chars ih =>
    cases text with
    | nil => cases h
    | cons d text =>
      simp only [beginsIgnoringCase, Bool.and_eq_true] at h
      exact Nat.succ_le_succ (ih h.2)

end Descent.Pattern
