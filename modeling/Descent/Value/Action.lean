import Descent.Numeral
import Descent.Value.Basic

/-!
What a grammar read as data can do with its values. An action that does not fit the shape of a value
leaves the value as it is.
-/

namespace Descent.Value

/-- A way to change a value. -/
inductive Action where
  | unit
  | concat
  | count
  | fst
  | snd
  | inc
  | double
  | digit
  | decimal
  | hex
  | octal
  | split
  | foldAdd
  | foldMul
  | text
  | reserved
  | tag
  | length
deriving Repr, DecidableEq

mutual

/-- All text in a value, in order: characters, texts, numbers in decimal and the texts of tokens. -/
def flatten : Value → String
  | .char c => c.toString
  | .text t => t
  | .int n => toString n.toInt
  | .token t => t.text
  | .pair first second => flatten first ++ flatten second
  | .some value => flatten value
  | .list values => flattenList values
  | .unit => ""
  | .none => ""

/-- All text in several values. -/
def flattenList : List Value → String
  | [] => ""
  | value :: rest => flatten value ++ flattenList rest

end

/-- The integers of a list, if it holds nothing else. -/
def integers? : List Value → Option (List Int64)
  | [] => Option.some []
  | .int n :: rest => (integers? rest).map (n :: ·)
  | _ :: _ => Option.none

/-- Folds a pair of an integer and a list of integers into one integer. -/
def foldIntegers (f : Int64 → Int64 → Int64) : Value → Value
  | .pair (.int first) (.list rest) =>
    match integers? rest with
    | Option.some numbers => .int (numbers.foldl f first)
    | Option.none => .pair (.int first) (.list rest)
  | value => value

namespace Action

/-- Does what the action says; integers wrap. -/
def apply : Action → Value → Value
  | unit, _ => .unit
  | concat, value => .text value.flatten
  | count, .list values => .int (Int64.ofNat values.length)
  | fst, .pair first _ => first
  | snd, .pair _ second => second
  | inc, .int n => .int (n + 1)
  | double, .int n => .int (n * 2)
  | digit, .char c =>
    if c.isDigit then .int (Int64.ofNat (c.toNat - '0'.toNat)) else .char c
  | decimal, .text t => .int (Numeral.decimalValue t.toList)
  | hex, .text t => .int (Numeral.hexValue t.toList)
  | octal, .text t => .int (Numeral.octalValue t.toList)
  | split, .text t =>
    let (significand, exponent) := Numeral.splitScientific t.toList
    .pair (.text (String.ofList significand)) (.text (String.ofList exponent))
  | foldAdd, value => foldIntegers (· + ·) value
  | foldMul, value => foldIntegers (· * ·) value
  | text, .token t => .text t.text
  | reserved, .token t => .ofOption (t.reserved?.map .text)
  | tag, .token t => .text t.kind.tag
  | length, .token t => .int (Int64.ofNat t.length)
  | _, value => value

end Action

end Descent.Value
