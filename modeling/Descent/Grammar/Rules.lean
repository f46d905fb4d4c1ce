import Descent.Grammar.Basic

/-!
What references stand for. Each reference is bound at most once; `Rules` are bindings together with
a limit on how deep references may lead into one another.

A grammar that comes back to a reference without having moved would never end, so on an input of `n`
units a chain of references that ends holds each of them at most once at each place. That is the
limit `Bindings.rules` sets.
-/

namespace Descent

/-- A reference and the grammar it stands for. -/
structure Binding (S : Scope) where
  ref : S.Ref
  grammar : Grammar S (S.alphabet ref) (S.Value ref)

/-- What the references of a scope stand for. -/
abbrev Bindings (S : Scope) := List (Binding S)

namespace Bindings

variable {S : Scope}

/-- The grammar that a reference stands for. -/
def lookup? (x : S.Ref) : Bindings S → Option (Grammar S (S.alphabet x) (S.Value x))
  | [] => none
  | binding :: rest =>
    match S.decideEq binding.ref x with
    | isTrue h => some (h ▸ binding.grammar)
    | isFalse _ => lookup? x rest

/-- Is anything bound to a reference? -/
def isBound (bindings : Bindings S) (x : S.Ref) : Bool :=
  (bindings.lookup? x).isSome

/-- Binds a reference, which nothing may be bound to. -/
def bind (bindings : Bindings S) (x : S.Ref) (grammar : Grammar S (S.alphabet x) (S.Value x)) :
    Except Fault (Bindings S) :=
  if bindings.isBound x then .error .reboundReference else .ok (bindings ++ [⟨x, grammar⟩])

/-- Runs the grammars that references stand for, so many of them inside one another. -/
def resolver (bindings : Bindings S) : Nat → Resolver S
  | 0 => fun x =>
    match bindings.lookup? x with
    | none => fun _ => .fault .unboundReference
    | some _ => fun _ => .fault .endlessRecursion
  | depth + 1 => fun x =>
    match bindings.lookup? x with
    | none => fun _ => .fault .unboundReference
    | some grammar => grammar.run (bindings.resolver depth)

end Bindings

/-- Bindings, and how deep references may lead into one another. -/
structure Rules (S : Scope) where
  bindings : Bindings S
  depth : Nat

/-- The bindings with a limit that no run over `length` units exceeds, unless it never ends. -/
def Bindings.rules {S : Scope} (bindings : Bindings S) (length : Nat) : Rules S where
  bindings
  depth := bindings.length * (length + 2)

/-- The parser of a grammar under rules. -/
def Rules.parser {S : Scope} {a : Alphabet} {α : Type} (rules : Rules S) (grammar : Grammar S a α) :
    Parser a α :=
  grammar.run (rules.bindings.resolver rules.depth)

end Descent
