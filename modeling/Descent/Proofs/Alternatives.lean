import Descent.Grammar.Combinator
import Descent.Proofs.Application
import Descent.Proofs.Backtracking
import Descent.Proofs.Pruning
import Descent.Proofs.Recorded
import Mathlib.Data.List.Induction

/-!
A choice is decided by the first alternative that does not fail recoverably.

Alternatives are tried in their order, each from the place of the choice and with all on record that
those before it have left there (`Rules.Tries`). The first that succeeds, commits or is at fault
decides, or else the last one, and the choice ends as it does (`Rules.exists_decisive`); what comes
after it is not applied (`Rules.reaches_choice_iff`). Choice is associative, since an alternative that
failed has left the place where it was (`Parser.orElse_assoc`). So it does not matter how alternatives
are bracketed (`Grammar.IsChoiceOf.parser_eq`).
-/

namespace Descent

variable {S : Scope} {a : Alphabet} {α : Type}

/-- The failure on record where an outcome leaves the input. -/
def Outcome.failure? : Outcome a α → Option Failure
  | ok _ t => t.failure
  | fail _ t => t.failure
  | fault _ => none

/-- What a parser records from the bare place is put behind what was on record before. -/
theorem Parser.HistoryFree.ends_failure {p : Parser a α} (hp : p.HistoryFree) (s : State a) :
    (p s).Ends fun t => t.failure = Failure.furthest s.failure (p s.bare).failure? := by
  cases h : p s.bare with
  | ok x t => rw [hp.ok_at h rfl]; exact rfl
  | fail severity t => rw [hp.fail_at h rfl]; exact rfl
  | fault f => rw [hp.fault_at h rfl]; trivial

/-! ## Brackets -/

namespace Parser

variable {p q r : Parser a α} {s t : State a}

theorem orElse_assoc (p q r : Parser a α) : orElse (orElse p q) r = orElse p (orElse q r) := by
  funext s
  cases h : p s with
  | ok x t => rw [orElse_ok h, orElse_ok (orElse_ok h)]
  | fail severity t =>
    cases severity with
    | recoverable =>
      rw [orElse_recoverable h]
      cases h' : q (t.restore s.index) with
      | ok x u => rw [orElse_ok h', orElse_ok ((orElse_recoverable h).trans h')]
      | fail severity u =>
        cases severity with
        | recoverable =>
          rw [orElse_recoverable h', orElse_recoverable ((orElse_recoverable h).trans h')]
          rfl
        | committed => rw [orElse_committed h', orElse_committed ((orElse_recoverable h).trans h')]
      | fault f => rw [orElse_fault h', orElse_fault ((orElse_recoverable h).trans h')]
    | committed => rw [orElse_committed h, orElse_committed (orElse_committed h)]
  | fault f => rw [orElse_fault h, orElse_fault (orElse_fault h)]

instance : Std.Associative (orElse (a := a) (α := α)) := ⟨orElse_assoc⟩

theorem orElse_recoverable_iff :
    orElse p q s = .fail .recoverable t ↔
      ∃ u, p s = .fail .recoverable u ∧ q (u.restore s.index) = .fail .recoverable t := by
  cases h : p s with
  | ok x u => simp [orElse_ok h]
  | fail severity u =>
    cases severity with
    | recoverable => simp [orElse_recoverable h]
    | committed => simp [orElse_committed h]
  | fault f => simp [orElse_fault h]

end Parser

/-- A grammar is a choice of alternatives in this order, bracketed in one way or another. -/
inductive Grammar.IsChoiceOf : Grammar S a α → List (Grammar S a α) → Prop where
  | single (p : Grammar S a α) : IsChoiceOf p [p]
  | orElse {p q : Grammar S a α} {ps qs : List (Grammar S a α)} (hp : IsChoiceOf p ps)
      (hq : IsChoiceOf q qs) : IsChoiceOf (orElse p q) (ps ++ qs)

namespace Rules

variable (rules : Rules S) {p q : Grammar S a α} {rest : List (Grammar S a α)} {s t : State a}

theorem parser_choice_eq_foldl (p : Grammar S a α) (rest : List (Grammar S a α)) :
    rules.parser (.choice (p :: rest)) =
      (rest.map rules.parser).foldl Parser.orElse (rules.parser p) := by
  induction rest generalizing p with
  | nil => rfl
  | cons q rest ih => exact ih (.orElse p q)

theorem parser_choice_append (p q : Grammar S a α) (rest more : List (Grammar S a α)) :
    rules.parser (.choice (p :: rest ++ q :: more)) =
      rules.parser (.orElse (.choice (p :: rest)) (.choice (q :: more))) := by
  have hchoices : rules.parser (.orElse (.choice (p :: rest)) (.choice (q :: more))) =
      Parser.orElse (rules.parser (.choice (p :: rest))) (rules.parser (.choice (q :: more))) := rfl
  rw [hchoices, List.cons_append, parser_choice_eq_foldl, parser_choice_eq_foldl,
    parser_choice_eq_foldl, List.map_append, List.foldl_append, List.map_cons, List.foldl_cons,
    List.foldl_assoc]

theorem parser_choice_cons (p q : Grammar S a α) (rest : List (Grammar S a α)) :
    rules.parser (.choice (p :: q :: rest)) =
      Parser.orElse (rules.parser p) (rules.parser (.choice (q :: rest))) :=
  rules.parser_choice_append p q [] rest

end Rules

namespace Grammar.IsChoiceOf

variable {g : Grammar S a α} {ps : List (Grammar S a α)}

theorem ne_nil (h : g.IsChoiceOf ps) : ps ≠ [] := by
  induction h with
  | single p => exact List.cons_ne_nil p []
  | orElse hp hq ihp ihq => exact List.append_ne_nil_of_left_ne_nil ihp _

/-- Brackets make no difference. -/
theorem parser_eq (h : g.IsChoiceOf ps) (rules : Rules S) :
    rules.parser g = rules.parser (choice ps) := by
  induction h with
  | single p => rfl
  | @orElse p q ps qs hp hq ihp ihq =>
    obtain ⟨p', rest, rfl⟩ := List.exists_cons_of_ne_nil hp.ne_nil
    obtain ⟨q', more, rfl⟩ := List.exists_cons_of_ne_nil hq.ne_nil
    rw [rules.parser_choice_append]
    exact congrArg₂ Parser.orElse ihp ihq

end Grammar.IsChoiceOf

/-! ## The alternatives that are tried -/

/-- Alternatives are tried one after another from a state and all fail recoverably; then the next one
would be tried from the other state. -/
inductive Rules.Tries (rules : Rules S) : State a → List (Grammar S a α) → State a → Prop where
  | none (s : State a) : Tries rules s [] s
  | next {s t u : State a} {p : Grammar S a α} {rest : List (Grammar S a α)}
      (run : rules.parser p s = .fail .recoverable t)
      (tried : Tries rules (t.restore s.index) rest u) : Tries rules s (p :: rest) u

namespace Rules.Tries

variable {rules : Rules S} {ps qs : List (Grammar S a α)} {p : Grammar S a α} {s t u : State a}

theorem single_iff :
    rules.Tries s [p] t ↔ ∃ u, rules.parser p s = .fail .recoverable u ∧ t = u.restore s.index := by
  constructor
  · intro h
    cases h with
    | next run tried => cases tried; exact ⟨_, run, rfl⟩
  · rintro ⟨u, run, rfl⟩
    exact .next run (.none _)

/-- Every alternative is tried from the place of the first one. -/
theorem bare_eq (h : rules.Tries s ps t) : t.bare = s.bare := by
  induction h with
  | none s => rfl
  | @next s t u p rest run tried ih =>
    rw [ih, State.bare_restore ((rules.parser_backtracks p).fail run).1]

/-- What each alternative records at the place has been put behind what was on record before. -/
theorem failure_eq (h : rules.Tries s ps t) :
    t.failure = (ps.map fun p => (rules.parser p s.bare).failure?).foldl Failure.furthest
      s.failure := by
  induction h with
  | none s => rfl
  | @next s t u p rest run tried ih =>
    have hp : (rules.parser p).HistoryFree := rules.parser_withPast p
    have hplace : (t.restore s.index).bare = s.bare := (single_iff.mpr ⟨t, run, rfl⟩).bare_eq
    have hrecorded := (hp.ends_failure s).of_fail run
    rw [ih, hplace, List.map_cons, List.foldl_cons, ← hrecorded]
    rfl

end Rules.Tries

namespace Rules

variable (rules : Rules S)

/-- A choice is decided by the first alternative that does not fail recoverably, or by the last one:
it ends as that one does from where those before it have failed. -/
theorem exists_decisive (p : Grammar S a α) (rest : List (Grammar S a α)) (s : State a) :
    ∃ before decisive later t, p :: rest = before ++ decisive :: later ∧ rules.Tries s before t ∧
      (later ≠ [] → ∀ u, rules.parser decisive t ≠ .fail .recoverable u) ∧
      rules.parser (.choice (p :: rest)) s = rules.parser decisive t := by
  induction rest generalizing p s with
  | nil => exact ⟨[], p, [], s, rfl, .none s, fun h => absurd rfl h, rfl⟩
  | cons q rest ih =>
    rw [parser_choice_cons]
    by_cases h : ∃ u, rules.parser p s = .fail .recoverable u
    · obtain ⟨u, hu⟩ := h
      obtain ⟨before, decisive, later, t, hsplit, htried, hdecides, hrun⟩ := ih q (u.restore s.index)
      refine ⟨p :: before, decisive, later, t, ?_, .next hu htried, hdecides, ?_⟩
      · rw [hsplit, List.cons_append]
      · rw [Parser.orElse_recoverable hu, hrun]
    · have hdecides : ∀ u, rules.parser p s ≠ .fail .recoverable u := fun u hu => h ⟨u, hu⟩
      exact ⟨[], p, q :: rest, s, rfl, .none s, fun _ => hdecides,
        Parser.orElse_of_ne_recoverable hdecides⟩

/-- A choice fails recoverably if all alternatives do. -/
theorem tries_iff_choice (p : Grammar S a α) (rest : List (Grammar S a α)) (s t : State a) :
    rules.Tries s (p :: rest) t ↔
      ∃ u, rules.parser (.choice (p :: rest)) s = .fail .recoverable u ∧ t = u.restore s.index := by
  induction rest generalizing p s with
  | nil => exact Tries.single_iff
  | cons q rest ih =>
    rw [parser_choice_cons]
    constructor
    · intro h
      cases h with
      | next run tried =>
        obtain ⟨u, hu, rfl⟩ := (ih q _).mp tried
        exact ⟨u, Parser.orElse_recoverable_iff.mpr ⟨_, run, hu⟩, rfl⟩
    · rintro ⟨u, hu, rfl⟩
      obtain ⟨v, run, hv⟩ := Parser.orElse_recoverable_iff.mp hu
      exact .next run ((ih q _).mpr ⟨u, hv, rfl⟩)

end Rules

/-! ## What is applied -/

theorem Application.reaches_orElse_iff {bindings : Bindings S} {depth : Nat} {p q : Grammar S a α}
    {s : State a} {inside : Application S} :
    Application.Reaches bindings ⟨depth, .orElse p q, s⟩ inside ↔
      inside = ⟨depth, .orElse p q, s⟩ ∨ Application.Reaches bindings ⟨depth, p, s⟩ inside ∨
        ∃ t, p.run (bindings.resolver depth) s = .fail .recoverable t ∧
          Application.Reaches bindings ⟨depth, q, t.restore s.index⟩ inside := by
  constructor
  · intro h
    rcases h.cases_head with rfl | ⟨next, hnext, hrest⟩
    · exact .inl rfl
    · rcases mem_inner_orElse.mp hnext with rfl | ⟨t, ht, rfl⟩
      · exact .inr (.inl hrest)
      · exact .inr (.inr ⟨t, ht, hrest⟩)
  · rintro (rfl | hrest | ⟨t, ht, hrest⟩)
    · exact .refl
    · exact .head (mem_inner_orElse.mpr (.inl rfl)) hrest
    · exact .head (mem_inner_orElse.mpr (.inr ⟨t, ht, rfl⟩)) hrest

namespace Rules

/-- A beginning that ends in `x` of a list that ends in `y` is the whole list or a beginning of the
rest. -/
theorem concat_prefix_concat {β : Type*} {l m : List β} {x y : β} :
    l ++ [x] <+: m ++ [y] ↔ (l = m ∧ x = y) ∨ l ++ [x] <+: m := by
  rw [List.prefix_concat_iff]
  refine or_congr_left ⟨fun h => ?_, fun ⟨hl, hx⟩ => by rw [hl, hx]⟩
  obtain ⟨hl, hx⟩ := List.append_inj' h rfl
  exact ⟨hl, List.head_eq_of_cons_eq hx⟩

/-- In a choice its beginnings are applied, since it is made by adding alternatives one by one; and an
alternative is, with all that is applied in it, if those before it have been tried and have failed. -/
theorem reaches_choice_iff (rules : Rules S) (p : Grammar S a α) (rest : List (Grammar S a α))
    (s : State a) (inside : Application S) :
    Application.Reaches rules.bindings ⟨rules.depth, .choice (p :: rest), s⟩ inside ↔
      (∃ n ≤ rest.length, inside = ⟨rules.depth, .choice (p :: rest.take n), s⟩) ∨
        ∃ before q t, before ++ [q] <+: p :: rest ∧ rules.Tries s before t ∧
          Application.Reaches rules.bindings ⟨rules.depth, q, t⟩ inside := by
  induction rest using List.reverseRecOn with
  | nil =>
    constructor
    · exact fun h => .inr ⟨[], p, s, List.prefix_rfl, .none s, h⟩
    · rintro (⟨n, -, rfl⟩ | ⟨before, q, t, hprefix, htried, h⟩)
      · rw [List.take_nil]; exact .refl
      · rw [← List.nil_append [p], concat_prefix_concat] at hprefix
        rcases hprefix with ⟨rfl, rfl⟩ | hnil
        · cases htried
          exact h
        · exact absurd (List.prefix_nil.mp hnil) (by simp)
  | append_singleton rest r ih =>
    have hchoice : Grammar.choice (p :: (rest ++ [r])) = .orElse (.choice (p :: rest)) r := by
      simp only [Grammar.choice, List.foldl_append, List.foldl_cons, List.foldl_nil]
    rw [hchoice, Application.reaches_orElse_iff, ih, ← List.cons_append, List.length_append]
    constructor
    · rintro (rfl | (⟨n, hn, rfl⟩ | ⟨before, q, t, hprefix, htried, h⟩) | ⟨u, hu, h⟩)
      · exact .inl ⟨rest.length + 1, Nat.le_refl _, by
          rw [List.take_of_length_le (by simp), hchoice]⟩
      · exact .inl ⟨n, Nat.le_succ_of_le hn, by rw [List.take_append_of_le_length hn]⟩
      · exact .inr ⟨before, q, t, concat_prefix_concat.mpr (.inr hprefix), htried, h⟩
      · exact .inr ⟨p :: rest, r, _, List.prefix_rfl,
          (rules.tries_iff_choice p rest s _).mpr ⟨u, hu, rfl⟩, h⟩
    · rintro (⟨n, hn, rfl⟩ | ⟨before, q, t, hprefix, htried, h⟩)
      · rcases Nat.lt_or_eq_of_le hn with hn | rfl
        · rw [List.take_append_of_le_length (Nat.le_of_lt_succ hn)]
          exact .inr (.inl (.inl ⟨n, Nat.le_of_lt_succ hn, rfl⟩))
        · rw [List.take_of_length_le (by simp), hchoice]
          exact .inl rfl
      · rcases concat_prefix_concat.mp hprefix with ⟨rfl, rfl⟩ | hprefix
        · obtain ⟨u, hu, rfl⟩ := (rules.tries_iff_choice p rest s t).mp htried
          exact .inr (.inr ⟨u, hu, h⟩)
        · exact .inr (.inl (.inr ⟨before, q, t, hprefix, htried, h⟩))

/-- **Ordered choice.** Alternatives are tried in order, each from the place of the choice, until one
does not fail recoverably or there is none left, and the choice ends as the last one tried does: with
what each of them records at the place put behind what was on record, in their order. If all fail
recoverably, so does the choice, and wherever it fails it is at its place. Apart from its own beginnings
nothing is applied in it but the alternatives before which all others have been tried and have failed.
However the same alternatives are bracketed, it is the same choice, events included. -/
theorem parser_choice (rules : Rules S) (p : Grammar S a α) (rest : List (Grammar S a α))
    (s : State a) :
    (∀ (before : List (Grammar S a α)) (t : State a), rules.Tries s before t → t.bare = s.bare) ∧
    (∃ before decisive later t, p :: rest = before ++ decisive :: later ∧ rules.Tries s before t ∧
      (later ≠ [] → ∀ u, rules.parser decisive t ≠ .fail .recoverable u) ∧
      rules.parser (.choice (p :: rest)) s = rules.parser decisive t ∧
      (rules.parser (.choice (p :: rest)) s).Ends fun u => u.failure =
        ((before ++ [decisive]).map fun q => (rules.parser q s.bare).failure?).foldl
          Failure.furthest s.failure) ∧
    ((∀ q ∈ p :: rest, ∃ u, rules.parser q s.bare = .fail .recoverable u) →
      ∃ u, rules.parser (.choice (p :: rest)) s = .fail .recoverable u) ∧
    (∀ severity u, rules.parser (.choice (p :: rest)) s = .fail severity u → u.index = s.index) ∧
    (∀ inside, Application.Reaches rules.bindings ⟨rules.depth, .choice (p :: rest), s⟩ inside ↔
      (∃ n ≤ rest.length, inside = ⟨rules.depth, .choice (p :: rest.take n), s⟩) ∨
        ∃ before q t, before ++ [q] <+: p :: rest ∧ rules.Tries s before t ∧
          Application.Reaches rules.bindings ⟨rules.depth, q, t⟩ inside) ∧
    (∀ g, g.IsChoiceOf (p :: rest) → rules.parser g s = rules.parser (.choice (p :: rest)) s) ∧
    ∀ q more, rules.parser (.choice (p :: rest ++ q :: more)) s =
      rules.parser (.orElse (.choice (p :: rest)) (.choice (q :: more))) s := by
  obtain ⟨before, decisive, later, t, hsplit, htried, hdecides, hrun⟩ :=
    rules.exists_decisive p rest s
  have hdecisive : (rules.parser decisive).HistoryFree := rules.parser_withPast decisive
  have hplace : t.bare = s.bare := htried.bare_eq
  refine ⟨fun _ _ => Tries.bare_eq, ⟨before, decisive, later, t, hsplit, htried, hdecides, hrun, ?_⟩,
    ?_, fun severity u hu => ((rules.parser_backtracks _).fail hu).2, rules.reaches_choice_iff p rest s,
    fun g hg => congrFun (hg.parser_eq rules) s,
    fun q more => congrFun (rules.parser_choice_append p q rest more) s⟩
  · have hrecorded := hdecisive.ends_failure t
    rw [htried.failure_eq, hplace] at hrecorded
    rw [hrun, List.map_append, List.foldl_append]
    exact hrecorded
  · intro hall
    obtain ⟨u, hu⟩ := hall decisive (hsplit ▸ List.mem_append_right _ (.head _))
    rw [hrun]
    exact ⟨_, hdecisive.fail_at hu hplace⟩

end Rules

section

/-- An `x`, a pair or an `a`, in this order. -/
def pairOrLetter : Grammar closedScope .text Char :=
  .choice [letter 'x', strictPair, letter 'a']

/-- Half a pair decides a choice, whichever way it is bracketed, although an `a` would do. -/
theorem pairOrLetter_commits :
    (Grammar.orElse (letter 'x') (.orElse strictPair (letter 'a'))).IsChoiceOf
      [letter 'x', strictPair, letter 'a'] ∧
    closedRules.parser (.orElse (letter 'x') (.orElse strictPair (letter 'a')))
      { input := ['a', 'c'] } = closedRules.parser pairOrLetter { input := ['a', 'c'] } ∧
    ∃ u, closedRules.parser pairOrLetter { input := ['a', 'c'] } = .fail .committed u ∧
      u.index = 0 := by
  have hbrackets : (Grammar.orElse (letter 'x') (.orElse strictPair (letter 'a'))).IsChoiceOf
      [letter 'x', strictPair, letter 'a'] :=
    .orElse (.single _) (.orElse (.single _) (.single _))
  obtain ⟨-, -, -, hplace, -, hsame, -⟩ := closedRules.parser_choice (letter 'x')
    [strictPair, letter 'a'] { input := ['a', 'c'] }
  exact ⟨hbrackets, hsame _ hbrackets, _, rfl, hplace _ _ rfl⟩

end

end Descent
