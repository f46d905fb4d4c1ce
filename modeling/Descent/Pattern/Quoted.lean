import Descent.Pattern.Basic

/-!
Quoted text. Inside the quotes the quote itself is written twice or after a backslash; a backslash
also writes a few control characters, and any other character after it stands for itself.
-/

namespace Descent.Pattern

/-- What the character after a backslash stands for. -/
def unescape (c : Char) : Char :=
  match c with
  | 'n' => '\n'
  | 'r' => '\r'
  | 't' => '\t'
  | '0' => '\x00'
  | c => c

/-- Reads up to the closing quote: how many characters that takes, the quote included, and what
they stand for. -/
def quotedBody (quote : Char) : List Char → Option (Nat × List Char)
  | [] => none
  | [c] => if c = quote then some (1, []) else none
  | c :: d :: rest =>
    if c = quote then
      if d = quote then (quotedBody quote rest).map fun (n, content) => (2 + n, quote :: content)
      else some (1, [])
    else if c = '\\' then
      (quotedBody quote rest).map fun (n, content) => (2 + n, unescape d :: content)
    else (quotedBody quote (d :: rest)).map fun (n, content) => (1 + n, c :: content)

/-- Reads a quoted text from its opening quote on. -/
def quoted (quote : Char) : List Char → Option (Nat × List Char)
  | [] => none
  | c :: rest =>
    if c = quote then (quotedBody quote rest).map fun (n, content) => (1 + n, content) else none

/-- Where a quoted text that begins at an index ends, and what it stands for. -/
def quotedEndAt (quote : Char) (text : List Char) (start : Nat) : Option (Nat × List Char) :=
  if start ≤ text.length then
    (quoted quote (text.drop start)).map fun (n, content) => (start + n, content)
  else none

end Descent.Pattern
