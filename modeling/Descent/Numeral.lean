/-!
Numerals and what they stand for. A numeral in any radix from 2 to 36 has a value in 64-bit words,
where it wraps; a decimal number with an exponent falls into a significand and an exponent.
-/

namespace Descent.Numeral

/-! ## Digits -/

/-- The value of a digit: the ASCII digits, then the letters of either case from ten on. -/
def digitValue (c : Char) : Option Nat :=
  if c.isDigit then some (c.toNat - '0'.toNat)
  else if c.isLower then some (c.toNat - 'a'.toNat + 10)
  else if c.isUpper then some (c.toNat - 'A'.toNat + 10)
  else none

/-- The value of a digit of the given radix. -/
def digitIn (radix : Nat) (c : Char) : Option Nat :=
  (digitValue c).filter (· < radix)

/-! ## Values -/

/-- The word denoted by the digits of a text, most significant first; what is no digit is skipped
and the word wraps. -/
def value (radix : Nat) (text : List Char) : Int64 :=
  (text.filterMap (digitIn radix)).foldl
    (fun word digit => word * Int64.ofNat radix + Int64.ofNat digit) 0

/-- Takes off one radix mark `0x` or `0X`. -/
def dropHexMark : List Char → List Char
  | '0' :: 'x' :: rest => rest
  | '0' :: 'X' :: rest => rest
  | text => text

/-- The word denoted by a hexadecimal numeral, with or without its mark. -/
def hexValue (text : List Char) : Int64 :=
  value 16 (dropHexMark text)

/-- The word denoted by an octal numeral. -/
def octalValue (text : List Char) : Int64 :=
  value 8 text

/-- The word denoted by a decimal numeral. -/
def decimalValue (text : List Char) : Int64 :=
  value 10 text

/-- The numeral `text` followed by one more digit is worth radix times as much and the digit. -/
theorem value_append_digit {radix d : Nat} {c : Char} (text : List Char)
    (h : digitIn radix c = some d) :
    value radix (text ++ [c]) = value radix text * Int64.ofNat radix + Int64.ofNat d := by
  simp [value, List.filterMap_append, h]

/-! ## Exponents -/

/-- The mark between a significand and its exponent. -/
def isExponentMark (c : Char) : Bool :=
  c == 'e' || c == 'E'

/-- Takes off one plus sign. -/
def dropPlus : List Char → List Char
  | '+' :: rest => rest
  | text => text

/-- Cuts a number at its first exponent mark into significand and exponent; the exponent keeps a
minus sign and loses a plus sign. Without a mark all of it is the significand. -/
def splitScientific (text : List Char) : List Char × List Char :=
  (text.takeWhile fun c => !isExponentMark c,
   dropPlus ((text.dropWhile fun c => !isExponentMark c).drop 1))

end Descent.Numeral
