import Descent.Text.Cased
import Descent.Text.LowerTable

/-!
Lower case of characters and of texts. A character is lowered by itself; in a text the Greek sigma
at the end of a word takes its final form, so the lower case of a text is more than the lower cases
of its characters.
-/

namespace Descent.Text

/-- The lower case of one character, which may take two. -/
def lowerChars (c : Char) : List Char :=
  if c.toNat < 128 then [c.toLower]
  else if c = '\u0130' then ['i', '\u0307']
  else [Char.ofNat (lowerCode c.toNat)]

/-- Lowers a text of which `before` has been read, latest character first. -/
def lowerAfter (before : List Char) : List Char → List Char
  | [] => []
  | c :: rest =>
    let lowered :=
      if c = '\u03A3' then
        if meetsCased before && !meetsCased rest then ['\u03C2'] else ['\u03C3']
      else lowerChars c
    lowered ++ lowerAfter (c :: before) rest

/-- The lower case of a text: a capital sigma that ends a word becomes a final sigma. -/
def lower (text : String) : String :=
  String.ofList (lowerAfter [] text.toList)

end Descent.Text
