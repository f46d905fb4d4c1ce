import Descent.Grammar.Basic

/-!
Grammars made of grammars: sequences, choices, repetitions and lists. All of them are terms over the
constructors, so what holds of the constructors holds of them.
-/

namespace Descent.Grammar

variable {S : Scope} {a : Alphabet} {α β γ : Type}

/-! ## Single units -/

/-- A unit of a class. -/
def satisfy (inClass : a.Item → Bool) (name : String) : Grammar S a a.Item :=
  item (fun unit => if inClass unit then some unit else none) [name]

/-- Any unit. -/
def anyUnit : Grammar S a a.Item :=
  satisfy (fun _ => true) "any"

/-! ## Sequences -/

/-- Both values. -/
def seq (p : Grammar S a α) (q : Grammar S a β) : Grammar S a (α × β) :=
  seqWith Prod.mk p q

/-- The value of the first. -/
def thenSkip (p : Grammar S a α) (q : Grammar S a β) : Grammar S a α :=
  seqWith (fun x _ => x) p q

/-- The value of the second. -/
def skipThen (p : Grammar S a α) (q : Grammar S a β) : Grammar S a β :=
  seqWith (fun _ y => y) p q

/-- All of them in order. -/
def sequence : List (Grammar S a α) → Grammar S a (List α)
  | [] => pure []
  | p :: rest => seqWith List.cons p (sequence rest)

/-- The same one several times. -/
def times (p : Grammar S a α) : Nat → Grammar S a (List α)
  | 0 => pure []
  | n + 1 => seqWith List.cons p (times p n)

/-- The value of the middle one. -/
def between (opening : Grammar S a α) (p : Grammar S a β) (closing : Grammar S a γ) :
    Grammar S a β :=
  thenSkip (skipThen opening p) closing

/-- The whole input and nothing after it. -/
def whole (p : Grammar S a α) : Grammar S a α :=
  thenSkip p atEnd

/-! ## Choices -/

/-- The first of several that succeeds. -/
def choice : List (Grammar S a α) → Grammar S a α
  | [] => refuse "no alternatives to choose from"
  | p :: rest => rest.foldl orElse p

/-- One or none. -/
def optional (p : Grammar S a α) : Grammar S a (Option α) :=
  orElse (map some p) (pure none)

/-- One, or a value in its stead. -/
def optionalOr (default : α) (p : Grammar S a α) : Grammar S a α :=
  map (·.getD default) (optional p)

/-! ## Repetitions -/

/-- At least one. -/
def oneOrMore (p : Grammar S a α) : Grammar S a (List α) :=
  seqWith List.cons p (many p)

/-- As many as there are, without their values. -/
def skipMany (p : Grammar S a α) : Grammar S a Unit :=
  map (fun _ => ()) (many p)

/-- At least one, without their values. -/
def skipOneOrMore (p : Grammar S a α) : Grammar S a Unit :=
  map (fun _ => ()) (oneOrMore p)

/-! ## Lists -/

/-- At least one element, with a separator between any two. A separator that no element follows is
left where it stands. -/
def sepBy1 (p : Grammar S a α) (separator : Grammar S a β) : Grammar S a (List α) :=
  seqWith List.cons p (many (skipThen separator p))

/-- Elements with a separator between any two. -/
def sepBy (p : Grammar S a α) (separator : Grammar S a β) : Grammar S a (List α) :=
  optionalOr [] (sepBy1 p separator)

/-- Elements with a separator between any two, and perhaps one after the last. -/
def sepEndBy (p : Grammar S a α) (separator : Grammar S a β) : Grammar S a (List α) :=
  optionalOr [] (thenSkip (sepBy1 p separator) (optional separator))

end Descent.Grammar
