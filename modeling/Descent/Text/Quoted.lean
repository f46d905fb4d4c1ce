import Descent.Text.Invisible

/-!
Text written between quotes so that nothing invisible is lost: what cannot be seen is escaped, what
can be seen stands for itself.
-/

namespace Descent.Text

/-- Lower-case hexadecimal digits without leading zeros. -/
def hexDigits (code : Nat) : List Char :=
  Nat.toDigits 16 code

/-- One character inside a text quoted by `quote`. -/
def escapeChar (quote c : Char) : List Char :=
  if c = '\x00' then ['\\', '0']
  else if c = '\t' then ['\\', 't']
  else if c = '\r' then ['\\', 'r']
  else if c = '\n' then ['\\', 'n']
  else if c = '\\' then ['\\', '\\']
  else if c = quote then ['\\', quote]
  else if isInvisible c then ['\\', 'u', '\x7b'] ++ hexDigits c.toNat ++ ['\x7d']
  else [c]

/-- A text between `quote`s, escaped. -/
def quoteWith (quote : Char) (cs : List Char) : String :=
  String.ofList (quote :: (cs.flatMap (escapeChar quote) ++ [quote]))

/-- A character between single quotes. -/
def quoteChar (c : Char) : String :=
  quoteWith '\'' [c]

/-- A text between double quotes. -/
def quoteText (text : String) : String :=
  quoteWith '"' text.toList

end Descent.Text
