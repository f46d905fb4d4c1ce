import Descent.Pattern.Basic
import Descent.Numeral

/-!
The shapes of numbers. Every pattern here is greedy and takes at least one character.
-/

namespace Descent.Pattern

/-- Decimal digits. -/
def integer : Pattern :=
  oneOrMore Char.isDigit

/-- A point and digits. -/
def fraction : Pattern :=
  headThen (· == '.') integer

/-- Digits with or without a fraction, or a fraction alone. A point without digits after it is left
where it stands. -/
def decimal : Pattern :=
  fun text =>
    match integer text with
    | some m => some (m + (fraction (text.drop m)).getD 0)
    | none => fraction text

/-- A sign in front of an exponent. -/
def isSign (c : Char) : Bool :=
  c == '+' || c == '-'

/-- Digits, with or without a sign in front. -/
def signedInteger : Pattern
  | c :: rest => if isSign c then (integer rest).map (1 + ·) else integer (c :: rest)
  | [] => none

/-- A decimal number, an exponent mark and digits with or without a sign. -/
def scientific : Pattern :=
  andThen decimal (headThen Numeral.isExponentMark signedInteger)

/-- A hexadecimal digit of either case. -/
def isHexDigit (c : Char) : Bool :=
  c.isDigit || ('a' ≤ c && c ≤ 'f') || ('A' ≤ c && c ≤ 'F')

/-- An octal digit. -/
def isOctalDigit (c : Char) : Bool :=
  '0' ≤ c && c ≤ '7'

/-- The mark `0x` or `0X` and hexadecimal digits. -/
def hexInteger : Pattern :=
  headThen (· == '0') (headThen (fun c => c == 'x' || c == 'X') (oneOrMore isHexDigit))

/-- A zero and any number of octal digits. -/
def octalInteger : Pattern :=
  headThen (· == '0') (many isOctalDigit)

/-- Digits of which the first is not zero. -/
def decimalInteger : Pattern :=
  headThen (fun c => c.isDigit && c != '0') (many Char.isDigit)

end Descent.Pattern
