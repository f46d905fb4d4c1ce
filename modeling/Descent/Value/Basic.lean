import Descent.Grammar.Basic

/-!
Values of one type for grammars that are not written in a program but read as data: whatever such a
grammar recognises, it yields a `Value`. `Value.debug` writes a value down in full.
-/

namespace Descent

/-- What a grammar read as data can yield. -/
inductive Value where
  | unit
  | char (c : Char)
  | text (text : String)
  | int (n : Int64)
  | list (values : List Value)
  | pair (first second : Value)
  | none
  | some (value : Value)
  | token (token : Token)
deriving Inhabited

namespace Value

mutual

/-- A value with all it holds, for people who look for mistakes. -/
def debug : Value → String
  | unit => "()"
  | char c => Text.quoteChar c
  | text t => Text.quoteText t
  | int n => toString n.toInt
  | list values => "[" ++ debugList values ++ "]"
  | pair first second => "(" ++ debug first ++ ", " ++ debug second ++ ")"
  | none => "None"
  | some value => "Some(" ++ debug value ++ ")"
  | token t => t.debug

/-- Several values, commas between them. -/
def debugList : List Value → String
  | [] => ""
  | [value] => debug value
  | value :: next :: rest => debug value ++ ", " ++ debugList (next :: rest)

end

/-- An optional value as a value. -/
def ofOption : Option Value → Value
  | Option.none => none
  | Option.some value => some value

/-- The token that a value is; a value that is none counts as an empty name. -/
def toToken : Value → Token
  | token t => t
  | _ => ⟨0, 0, .identifier "", ""⟩

/-- References of grammars read as data: a name for each alphabet. -/
def scope : Scope where
  Ref := Alphabet × String
  decideEq := inferInstance
  alphabet := Prod.fst
  Value := fun _ => Value

end Value

end Descent
