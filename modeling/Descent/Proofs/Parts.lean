import Descent.Grammar.Rules
import Mathlib.Logic.Relation

/-!
What a grammar is made of, references followed.

`operands` are the grammars directly inside a grammar; for a reference that is the grammar it stands
for. `Contains` closes this up, so it speaks of recursive grammars too, and `Throughout` says
something of everything a grammar contains. `Bindings.resolver_induction` is the induction on the
depth of references for what holds of single parsers, and `Bindings.rewritten_induction` the one for
what holds between the parsers of grammars before and after they are rewritten.
-/

namespace Descent

/-- A grammar over any alphabet, with values of any type. -/
structure Part (S : Scope) where
  {alphabet : Alphabet}
  {Value : Type}
  grammar : Grammar S alphabet Value

namespace Grammar

variable {S : Scope}

/-- The grammars directly inside a grammar. -/
def operands (bindings : Bindings S) : {a : Alphabet} → {α : Type} → Grammar S a α → List (Part S)
  | _, _, map _ p => [⟨p⟩]
  | _, _, seqWith _ p q => [⟨p⟩, ⟨q⟩]
  | _, _, orElse p q => [⟨p⟩, ⟨q⟩]
  | _, _, atomic p => [⟨p⟩]
  | _, _, peek p => [⟨p⟩]
  | _, _, notFollowedBy p _ => [⟨p⟩]
  | _, _, many p => [⟨p⟩]
  | _, _, label _ p => [⟨p⟩]
  | _, _, traced _ _ p => [⟨p⟩]
  | _, _, spanned _ p => [⟨p⟩]
  | _, _, ref x => ((bindings.lookup? x).map Part.mk).toList
  | _, _, staged grammar lexer => [⟨grammar⟩, ⟨lexer⟩]
  | _, _, terminal _ words => [⟨words⟩]
  | _, _, _ => []

end Grammar

variable {S : Scope} {a : Alphabet} {α : Type}

/-- A grammar is, or uses, another one, at any depth and through references. -/
def Part.Contains (bindings : Bindings S) : Part S → Part S → Prop :=
  Relation.ReflTransGen fun whole part => part ∈ whole.grammar.operands bindings

/-- What a reference stands for is one of the bindings. -/
theorem Bindings.of_lookup? {P : {a : Alphabet} → {α : Type} → Grammar S a α → Prop}
    {bindings : Bindings S} (h : ∀ binding ∈ bindings, P binding.grammar) {x : S.Ref}
    {g : Grammar S (S.alphabet x) (S.Value x)} (hg : bindings.lookup? x = some g) : P g := by
  induction bindings with
  | nil => cases hg
  | cons binding rest ih =>
    unfold Bindings.lookup? at hg
    split at hg
    · rename_i hx _
      subst hx
      cases hg
      exact h binding (.head _)
    · exact ih (fun b hb => h b (.tail _ hb)) hg

namespace Grammar

variable {bindings : Bindings S} {holds : Part S → Prop} {g : Grammar S a α}

/-- Something holds of a grammar and of all it uses. -/
def Throughout (bindings : Bindings S) (holds : Part S → Prop) (g : Grammar S a α) : Prop :=
  ∀ part, Part.Contains bindings ⟨g⟩ part → holds part

theorem Throughout.self (h : g.Throughout bindings holds) : holds ⟨g⟩ :=
  h ⟨g⟩ .refl

theorem Throughout.operand (h : g.Throughout bindings holds) {b : Alphabet} {β : Type}
    {p : Grammar S b β} (hp : ⟨p⟩ ∈ g.operands bindings) : p.Throughout bindings holds :=
  fun part hpart => h part (.head hp hpart)

/-- The equation by which `Throughout` is found for a grammar without recursion. -/
theorem throughout_iff : g.Throughout bindings holds ↔
    holds ⟨g⟩ ∧ ∀ part ∈ g.operands bindings, part.grammar.Throughout bindings holds := by
  constructor
  · intro h
    exact ⟨h.self, fun _ hpart => h.operand hpart⟩
  · rintro ⟨hself, hrest⟩ part hpart
    rcases hpart.cases_head with rfl | ⟨next, hnext, hpart⟩
    · exact hself
    · exact hrest next hnext part hpart

/-! The same equation by the number of operands, for grammars at hand. -/

theorem Throughout.leaf (hself : holds ⟨g⟩) (hops : g.operands bindings = []) :
    g.Throughout bindings holds :=
  throughout_iff.mpr ⟨hself, hops ▸ nofun⟩

theorem Throughout.unary {b : Alphabet} {β : Type} {p : Grammar S b β} (hself : holds ⟨g⟩)
    (hops : g.operands bindings = [⟨p⟩]) (hp : p.Throughout bindings holds) :
    g.Throughout bindings holds := by
  refine throughout_iff.mpr ⟨hself, fun part hpart => ?_⟩
  rw [hops, List.mem_singleton] at hpart
  exact hpart ▸ hp

theorem Throughout.binary {b c : Alphabet} {β γ : Type} {p : Grammar S b β} {q : Grammar S c γ}
    (hself : holds ⟨g⟩) (hops : g.operands bindings = [⟨p⟩, ⟨q⟩])
    (hp : p.Throughout bindings holds) (hq : q.Throughout bindings holds) :
    g.Throughout bindings holds := by
  refine throughout_iff.mpr ⟨hself, fun part hpart => ?_⟩
  rw [hops, List.mem_cons, List.mem_singleton] at hpart
  rcases hpart with rfl | rfl
  · exact hp
  · exact hq

theorem Throughout.target {x : S.Ref} {p : Grammar S (S.alphabet x) (S.Value x)}
    (h : (ref x).Throughout bindings holds) (hx : bindings.lookup? x = some p) :
    p.Throughout bindings holds :=
  h.operand (by simp [operands, hx])

/-- A grammar and its bindings may be looked through one by one, without following references. -/
theorem throughout_of_bindings (hbindings : ∀ binding ∈ bindings, binding.grammar.Throughout [] holds)
    (hg : g.Throughout [] holds) : g.Throughout bindings holds := by
  intro part hpart
  suffices h : part.grammar.Throughout [] holds from h.self
  induction hpart with
  | refl => exact hg
  | @tail whole next _ hnext ih =>
    obtain ⟨p⟩ := whole
    cases p with
    | ref x =>
      simp only [operands, Option.mem_toList, Option.map_eq_some_iff] at hnext
      obtain ⟨q, hq, rfl⟩ := hnext
      exact Bindings.of_lookup? (P := fun p => p.Throughout [] holds) hbindings hq
    | _ => exact ih.operand hnext

theorem throughout_true (g : Grammar S a α) : g.Throughout bindings fun _ => True :=
  fun _ _ => trivial

/-! ## Grammars that are not about text -/

/-- Only a grammar of text has operands over another alphabet. -/
theorem alphabet_of_mem_operands (ha : a ≠ .text) {part : Part S}
    (hpart : part ∈ g.operands bindings) : part.alphabet = a := by
  cases g with
  | scan | spanned | staged | terminal => exact absurd rfl ha
  | item | atEnd | pure | refuse | silent => cases hpart
  | map _ p | atomic p | peek p | notFollowedBy p | many p | label _ p | traced _ _ p =>
    rw [List.mem_singleton.mp hpart]
  | seqWith _ p q | orElse p q =>
    rw [operands, List.mem_cons, List.mem_singleton] at hpart
    rcases hpart with rfl | rfl <;> rfl
  | ref x =>
    simp only [operands, Option.mem_toList, Option.map_eq_some_iff] at hpart
    obtain ⟨_, _, rfl⟩ := hpart
    rfl

theorem throughout_of_ne_text (ha : a ≠ .text)
    (h : ∀ part : Part S, part.alphabet ≠ .text → holds part) : g.Throughout bindings holds := by
  intro part hpart
  apply h
  induction hpart with
  | refl => exact ha
  | tail _ hnext ih => rwa [alphabet_of_mem_operands ih hnext]

end Grammar

/-! ## Induction over runs -/

/-- What holds of the two ways a reference can be at fault, and of the parser of a grammar if it
holds of what the references in it do, holds of what references do under bindings. The induction is
on how deep references may lead. -/
theorem Bindings.resolver_induction {bindings : Bindings S} {holds : Part S → Prop}
    {Q : {a : Alphabet} → {α : Type} → Parser a α → Prop}
    (unbound : ∀ x : S.Ref,
      Q (a := S.alphabet x) (α := S.Value x) fun _ => .fault .unboundReference)
    (endless : ∀ x : S.Ref,
      Q (a := S.alphabet x) (α := S.Value x) fun _ => .fault .endlessRecursion)
    (step : ∀ depth, (∀ x, (Grammar.ref x).Throughout bindings holds →
        Q (bindings.resolver depth x)) →
      ∀ {a : Alphabet} {α : Type} (g : Grammar S a α), g.Throughout bindings holds →
        Q (g.run (bindings.resolver depth))) (depth : Nat) (x : S.Ref)
    (hx : (Grammar.ref x).Throughout bindings holds) : Q (bindings.resolver depth x) := by
  induction depth generalizing x with
  | zero =>
    unfold Bindings.resolver
    cases bindings.lookup? x with
    | none => exact unbound x
    | some g => exact endless x
  | succ depth ih =>
    unfold Bindings.resolver
    cases hg : bindings.lookup? x with
    | none => exact unbound x
    | some g => exact step depth ih g (hx.target hg)

/-! ## Rewritten grammars -/

namespace Bindings

/-- The bindings with every grammar rewritten. -/
def rewritten (rewrite : {a : Alphabet} → {α : Type} → Grammar S a α → Grammar S a α)
    (bindings : Bindings S) : Bindings S :=
  bindings.map fun binding => ⟨binding.ref, rewrite binding.grammar⟩

variable (rewrite : {a : Alphabet} → {α : Type} → Grammar S a α → Grammar S a α)
  {bindings : Bindings S}

theorem lookup?_rewritten (bindings : Bindings S) (x : S.Ref) :
    (bindings.rewritten rewrite).lookup? x = (bindings.lookup? x).map rewrite := by
  induction bindings with
  | nil => rfl
  | cons binding rest ih =>
    unfold rewritten at ih ⊢
    rw [List.map_cons]
    unfold lookup?
    cases S.decideEq binding.ref x with
    | isTrue h => subst h; rfl
    | isFalse h => exact ih

/-- What holds between two parsers at fault, and between the parser of a grammar and that of the
rewritten one if it holds between what the references in them do, holds between what references do
before and after. The induction is on how deep references may lead, which is the same in both. -/
theorem rewritten_induction {holds : Part S → Prop}
    {R : {a : Alphabet} → {α : Type} → Parser a α → Parser a α → Prop}
    (fault : ∀ (x : S.Ref) (g : Fault), R (a := S.alphabet x) (α := S.Value x)
      (fun _ => .fault g) (fun _ => .fault g))
    (step : ∀ depth, (∀ x, (Grammar.ref x).Throughout bindings holds →
        R (bindings.resolver depth x) ((bindings.rewritten rewrite).resolver depth x)) →
      ∀ {a : Alphabet} {α : Type} (g : Grammar S a α), g.Throughout bindings holds →
        R (g.run (bindings.resolver depth))
          ((rewrite g).run ((bindings.rewritten rewrite).resolver depth)))
    (depth : Nat) (x : S.Ref) (hx : (Grammar.ref x).Throughout bindings holds) :
    R (bindings.resolver depth x) ((bindings.rewritten rewrite).resolver depth x) := by
  induction depth generalizing x with
  | zero =>
    unfold resolver
    rw [lookup?_rewritten]
    cases bindings.lookup? x with
    | none => exact fault x .unboundReference
    | some g => exact fault x .endlessRecursion
  | succ depth ih =>
    unfold resolver
    rw [lookup?_rewritten]
    cases hg : bindings.lookup? x with
    | none => exact fault x .unboundReference
    | some g => exact step depth ih g (hx.target hg)

end Bindings

end Descent
