import Descent.Grammar.Registry
import Descent.Grammar.TokenLiteral
import Descent.Proofs.Alternatives
import Descent.Proofs.Retained

/-!
One of several names is a choice of single names.

Grammars that take a unit if one of several names fits it are all made alike (`Grammar.oneOf`): the
reserved tokens that a vocabulary has under some names, and the tokens of some kinds. Where none of the
names fits, all of them are put on record at once; a choice puts them there one after another, and that
is the same (`State.expect_append`). Where one fits, the choice has on record what was tried before it,
and in nothing else do the two differ (`Rules.oneOf_takesLike`).
-/

namespace Descent

variable {S : Scope} {a : Alphabet} {α : Type}

/-- Two parsers that take a unit in the same cases, with the same value, and then differ in the failure
on record at most. Where they take none they fail recoverably, in the same state. -/
def Parser.TakesLike (p q : Parser a α) : Prop :=
  ∀ s, (∃ value t u, p s = .ok value t ∧ q s = .ok value u ∧ t.dropFailure = u.dropFailure) ∨
    ∃ t, p s = .fail .recoverable t ∧ q s = .fail .recoverable t

/-- What is made of a unit that one of the names fits. -/
def Grammar.oneOf (fits : a.Item → String → Bool) (value : a.Item → α) (names : List String) :
    Grammar S a α :=
  .item (fun unit => if names.any (fits unit) then some (value unit) else none) names

/-- What is expected at a place does not count when it is left. -/
theorem State.dropFailure_advance_expect (s : State a) (names : List String) :
    (s.expect names).advance.dropFailure = s.advance.dropFailure := by
  have hnext : (s.expect names).hasNext = s.hasNext := rfl
  unfold advance
  rw [hnext]
  split <;> rfl

namespace Rules

section

variable (rules : Rules S) {fits : a.Item → String → Bool} {value : a.Item → α}
  {names : List String} {s : State a}

theorem oneOf_ok {unit : a.Item} (hnext : s.next? = some unit)
    (h : names.any (fits unit) = true) :
    rules.parser (.oneOf fits value names) s = .ok (value unit) s.advance := by
  have hrun : rules.parser (.oneOf fits value names) s = Parser.item
      (fun unit => if names.any (fits unit) then some (value unit) else none) names s := rfl
  simp only [hrun, Parser.item, hnext, Option.bind_some, if_pos h]

theorem oneOf_fail (h : ∀ unit, s.next? = some unit → ¬ names.any (fits unit) = true) :
    rules.parser (.oneOf fits value names) s = .fail .recoverable (s.expect names) := by
  have hrun : rules.parser (.oneOf fits value names) s = Parser.item
      (fun unit => if names.any (fits unit) then some (value unit) else none) names s := rfl
  cases hnext : s.next? with
  | none => simp only [hrun, Parser.item, hnext, Option.bind_none]
  | some unit => simp only [hrun, Parser.item, hnext, Option.bind_some, if_neg (h unit hnext)]

theorem oneOf_cases (fits : a.Item → String → Bool) (value : a.Item → α) (names : List String)
    (s : State a) :
    (∃ unit, s.next? = some unit ∧ names.any (fits unit) = true ∧
      rules.parser (.oneOf fits value names) s = .ok (value unit) s.advance) ∨
    (∀ unit, s.next? = some unit → ¬ names.any (fits unit) = true) ∧
      rules.parser (.oneOf fits value names) s = .fail .recoverable (s.expect names) := by
  by_cases h : ∃ unit, s.next? = some unit ∧ names.any (fits unit) = true
  · obtain ⟨unit, hnext, hfits⟩ := h
    exact .inl ⟨unit, hnext, hfits, rules.oneOf_ok hnext hfits⟩
  · have hfits : ∀ unit, s.next? = some unit → ¬ names.any (fits unit) = true :=
      fun unit hnext hfits => h ⟨unit, hnext, hfits⟩
    exact .inr ⟨hfits, rules.oneOf_fail hfits⟩

/-- A choice of single names takes a unit that one of them fits. Otherwise it has put all of them on
record, in their order. -/
theorem choice_oneOf_cases (fits : a.Item → String → Bool) (value : a.Item → α) (name : String)
    (rest : List String) (s : State a) :
    (∃ unit t, s.next? = some unit ∧ (name :: rest).any (fits unit) = true ∧
      rules.parser (.choice ((name :: rest).map fun n => .oneOf fits value [n])) s =
        .ok (value unit) t ∧ t.dropFailure = s.advance.dropFailure) ∨
    (∀ unit, s.next? = some unit → ¬ (name :: rest).any (fits unit) = true) ∧
      rules.parser (.choice ((name :: rest).map fun n => .oneOf fits value [n])) s =
        .fail .recoverable (s.expect (name :: rest)) := by
  -- the last alternative is the only one that starts with all the other names on record
  induction rest using List.reverseRecOn with
  | nil =>
    rcases rules.oneOf_cases fits value [name] s with ⟨unit, hnext, hfits, hrun⟩ | ⟨hfits, hrun⟩
    · exact .inl ⟨unit, s.advance, hnext, hfits, hrun, rfl⟩
    · exact .inr ⟨hfits, hrun⟩
  | append_singleton rest last ih =>
    have hchoice : rules.parser
        (.choice ((name :: (rest ++ [last])).map fun n => .oneOf fits value [n])) =
        Parser.orElse
          (rules.parser (.choice ((name :: rest).map fun n => .oneOf fits value [n])))
          (rules.parser (.oneOf fits value [last])) := by
      rw [← List.cons_append, List.map_append]
      exact rules.parser_choice_append _ _ _ []
    have hany : ∀ unit, (name :: (rest ++ [last])).any (fits unit) =
        ((name :: rest).any (fits unit) || [last].any (fits unit)) := by
      intro unit
      rw [← List.cons_append, List.any_append]
    simp only [hchoice, hany]
    rcases ih with ⟨unit, t, hnext, hfits, hrun, hplace⟩ | ⟨hfits, hrun⟩
    · exact .inl ⟨unit, t, hnext, by rw [hfits, Bool.true_or], Parser.orElse_ok hrun, hplace⟩
    · rw [Parser.orElse_recoverable hrun]
      rcases rules.oneOf_cases fits value [last] (s.expect (name :: rest)) with
        ⟨unit, hnext, hlast, hrun'⟩ | ⟨hlast, hrun'⟩
      · exact .inl ⟨unit, _, hnext, by rw [hlast, Bool.or_true], hrun',
          s.dropFailure_advance_expect _⟩
      · rw [State.expect_append] at hrun'
        refine .inr ⟨fun unit hnext => ?_, hrun'⟩
        rw [Bool.or_eq_true]
        exact not_or.mpr ⟨hfits unit hnext, hlast unit hnext⟩

/-- The names together take what their choice takes. -/
theorem oneOf_takesLike (fits : a.Item → String → Bool) (value : a.Item → α) (name : String)
    (rest : List String) :
    (rules.parser (.oneOf fits value (name :: rest))).TakesLike
      (rules.parser (.choice ((name :: rest).map fun n => .oneOf fits value [n]))) := by
  intro s
  rcases rules.choice_oneOf_cases fits value name rest s with
    ⟨unit, t, hnext, hfits, hrun, hplace⟩ | ⟨hfits, hrun⟩
  · exact .inl ⟨value unit, _, t, rules.oneOf_ok hnext hfits, hrun, hplace.symm⟩
  · exact .inr ⟨_, rules.oneOf_fail hfits, hrun⟩

end

end Rules

/-! ## Reserved tokens and tokens of a kind -/

/-- The token is the lexeme that a name stands for. -/
def Lexicon.calls (lexicon : Lexicon) (token : Token) (name : String) : Bool :=
  (lexicon.resolve? name).any fun lexeme => token.kind == .reserved lexeme

theorem Token.reserved?_eq_some_iff {token : Token} {lexeme : String} :
    token.reserved? = some lexeme ↔ token.kind = .reserved lexeme := by
  unfold reserved?
  cases token.kind <;> simp

theorem Registry.token_eq_oneOf (registry : Registry S) (names : List String) :
    registry.token names = .oneOf registry.lexicon.calls id names := by
  have hcalls : ∀ token : Token,
      token.reserved?.any (names.filterMap registry.lexicon.resolve?).contains =
        names.any (registry.lexicon.calls token) := by
    intro token
    rw [Bool.eq_iff_iff]
    simp only [Lexicon.calls, Option.any_eq_true, List.any_eq_true, List.contains_iff_mem,
      List.mem_filterMap, beq_iff_eq, Token.reserved?_eq_some_iff]
    constructor
    · rintro ⟨lexeme, hkind, name, hname, hresolve⟩
      exact ⟨name, hname, lexeme, hresolve, hkind⟩
    · rintro ⟨name, hname, lexeme, hresolve, hkind⟩
      exact ⟨lexeme, hkind, name, hname, hresolve⟩
  simp only [token, Grammar.oneOf, hcalls, id]

theorem Grammar.fragment_eq_oneOf (tags : List String) :
    (fragment tags : Grammar S .tokens String) =
      oneOf (a := .tokens) (fun (token : Token) tag => token.kind.tag == tag) Token.text tags := by
  simp only [fragment, oneOf, List.contains_eq_any_beq]

/-- **Several names are a choice of single names.** Whatever the names are, known to the vocabulary or
not, once or more than once in the list: a reserved token under several names is taken in the cases in
which a choice of the single names takes it, with the same token and from there on at the same place;
and where it is refused the state is the same in all, the failure on record included. So it is with
tokens of several kinds. -/
theorem Registry.token_takesLike_choice (rules : Rules S) (registry : Registry S) :
    (∀ name names, (rules.parser (registry.token (name :: names))).TakesLike
      (rules.parser (.choice ((name :: names).map fun n => registry.token [n])))) ∧
    ∀ tag tags, (rules.parser (.fragment (tag :: tags))).TakesLike
      (rules.parser (.choice ((tag :: tags).map fun t => .fragment [t]))) := by
  constructor
  · intro name names
    simp only [registry.token_eq_oneOf]
    exact rules.oneOf_takesLike _ _ name names
  · intro tag tags
    simp only [Grammar.fragment_eq_oneOf]
    exact rules.oneOf_takesLike _ _ tag tags

end Descent
