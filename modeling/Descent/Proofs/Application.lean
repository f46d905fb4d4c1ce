import Descent.Parser.Equations
import Descent.Proofs.Parts

/-!
What is applied in a run.

An `Application` is a grammar that starts from a state. `Application.inner` are the applications
directly inside one, in the order in which they happen, and `Application.Reaches` follows them to all
that is applied in a run, also where the run is at fault in the end. What is inside a grammar of one
kind, `Application.mem_inner_seqWith` and its siblings tell. References lead less and less deep and
operands are smaller than what is made of them, so applications do not go on for ever
(`Application.inner_wellFounded`): what holds of an application if it holds of those inside it holds
of all of them.
-/

namespace Descent

/-- The states from which a repetition applies its operand, in at most so many rounds. -/
def Parser.rounds {a : Alphabet} {α : Type} (p : Parser a α) : Nat → State a → List (State a)
  | 0, _ => []
  | n + 1, s => s ::
    match p s with
    | .ok _ t => if t.index = s.index then [] else rounds p n t
    | _ => []

/-- What holds where a repetition begins, and where its operand ends if it holds where that begins,
holds at the beginning of every round. -/
theorem Parser.rounds_induction {a : Alphabet} {α : Type} {p : Parser a α} {P : State a → Prop}
    (hstep : ∀ s x t, P s → p s = .ok x t → P t) (n : Nat) {s : State a} (hs : P s) :
    ∀ t ∈ p.rounds n s, P t := by
  induction n generalizing s with
  | zero => exact nofun
  | succ n ih =>
    refine List.forall_mem_cons.mpr ⟨hs, ?_⟩
    cases h : p s with
    | ok x t =>
      by_cases hindex : t.index = s.index
      · simp only [if_pos hindex]; exact nofun
      · simp only [if_neg hindex]; exact ih (hstep s x t hs h)
    | fail severity t => exact nofun
    | fault g => exact nofun

/-- A grammar that starts from a state. -/
structure Application (S : Scope) where
  {alphabet : Alphabet}
  {Value : Type}
  /-- How deep references may lead from here. -/
  depth : Nat
  grammar : Grammar S alphabet Value
  state : State alphabet

namespace Application

variable {S : Scope} (bindings : Bindings S)

/-- How an application ends. -/
def outcome (app : Application S) : Outcome app.alphabet app.Value :=
  app.grammar.run (bindings.resolver app.depth) app.state

/-- What is applied directly inside an application, in order. -/
def inner : Application S → List (Application S)
  | ⟨depth, .map _ p, s⟩ => [⟨depth, p, s⟩]
  | ⟨depth, .seqWith _ p q, s⟩ => ⟨depth, p, s⟩ ::
    match p.run (bindings.resolver depth) s with
    | .ok _ t => [⟨depth, q, t⟩]
    | _ => []
  | ⟨depth, .orElse p q, s⟩ => ⟨depth, p, s⟩ ::
    match p.run (bindings.resolver depth) s with
    | .fail .recoverable t => [⟨depth, q, t.restore s.index⟩]
    | _ => []
  | ⟨depth, .atomic p, s⟩ => [⟨depth, p, { s with mark := s.index }⟩]
  | ⟨depth, .peek p, s⟩ => [⟨depth, p, s⟩]
  | ⟨depth, .notFollowedBy p _, s⟩ => [⟨depth, p, s.dropFailure⟩]
  | ⟨depth, .many p, s⟩ =>
    ((p.run (bindings.resolver depth)).rounds (s.input.length - s.index + 1) s).map
      fun t => ⟨depth, p, t⟩
  | ⟨depth, .label name p, s⟩ => [⟨depth, p, s.dropFailure.note (.enter name)⟩]
  | ⟨depth, .traced name _ p, s⟩ => [⟨depth, p, s.note (.enter name)⟩]
  | ⟨depth, .spanned _ p, s⟩ => [⟨depth, p, s⟩]
  | ⟨0, .ref _, _⟩ => []
  | ⟨depth + 1, .ref x, s⟩ => ((bindings.lookup? x).map fun g => ⟨depth, g, s⟩).toList
  | ⟨depth, .staged grammar lexer, s⟩ => ⟨depth, lexer, s.dropFailure⟩ ::
    match lexer.run (bindings.resolver depth) s.dropFailure with
    | .ok tokens t => [⟨depth, grammar, { input := tokens, events := t.events }⟩]
    | _ => []
  | ⟨depth, .terminal lexicon words, s⟩ =>
    if s.input.length < s.index ∧ lexicon.operators ≠ [] then []
    else [⟨depth, words, s.dropFailure⟩]
  | _ => []

/-- All that is applied in the course of an application, itself included. -/
def Reaches : Application S → Application S → Prop :=
  Relation.ReflTransGen fun app inside => inside ∈ app.inner bindings

variable {bindings} {app inside : Application S}

/-! ## What is applied where -/

section

variable {a : Alphabet} {α β γ : Type} {depth : Nat}

theorem mem_inner_seqWith {f : α → β → γ} {p : Grammar S a α} {q : Grammar S a β} {s : State a} :
    inside ∈ inner bindings ⟨depth, .seqWith f p q, s⟩ ↔
      inside = ⟨depth, p, s⟩ ∨
        ∃ x t, p.run (bindings.resolver depth) s = .ok x t ∧ inside = ⟨depth, q, t⟩ := by
  cases h : p.run (bindings.resolver depth) s <;> simp [inner, h, and_assoc]

theorem mem_inner_orElse {p q : Grammar S a α} {s : State a} :
    inside ∈ inner bindings ⟨depth, .orElse p q, s⟩ ↔
      inside = ⟨depth, p, s⟩ ∨
        ∃ t, p.run (bindings.resolver depth) s = .fail .recoverable t ∧
          inside = ⟨depth, q, t.restore s.index⟩ := by
  cases h : p.run (bindings.resolver depth) s with
  | fail severity t => cases severity <;> simp [inner, h]
  | ok x t | fault g => simp [inner, h]

theorem mem_inner_many {p : Grammar S a α} {s : State a} :
    inside ∈ inner bindings ⟨depth, .many p, s⟩ ↔
      ∃ t ∈ (p.run (bindings.resolver depth)).rounds (s.input.length - s.index + 1) s,
        inside = ⟨depth, p, t⟩ := by
  simp [inner, eq_comm]

theorem mem_inner_ref {x : S.Ref} {s : State (S.alphabet x)} :
    inside ∈ inner bindings ⟨depth, .ref x, s⟩ ↔
      ∃ shallower g, depth = shallower + 1 ∧ bindings.lookup? x = some g ∧
        inside = ⟨shallower, g, s⟩ := by
  cases depth with
  | zero => simp [inner]
  | succ depth =>
    rw [inner, Option.mem_toList, Option.map_eq_some_iff]
    simp [eq_comm]

theorem mem_inner_staged {grammar : Grammar S .tokens α} {lexer : Grammar S .text (List Token)}
    {s : State .text} :
    inside ∈ inner bindings ⟨depth, .staged grammar lexer, s⟩ ↔
      inside = ⟨depth, lexer, s.dropFailure⟩ ∨
        ∃ tokens t, lexer.run (bindings.resolver depth) s.dropFailure = .ok tokens t ∧
          inside = ⟨depth, grammar, { input := tokens, events := t.events }⟩ := by
  cases h : lexer.run (bindings.resolver depth) s.dropFailure <;> simp [inner, h, and_assoc]

theorem mem_inner_terminal {lexicon : Lexicon} {words : Grammar S .text Unit} {s : State .text} :
    inside ∈ inner bindings ⟨depth, .terminal lexicon words, s⟩ ↔
      ¬ (s.input.length < s.index ∧ lexicon.operators ≠ []) ∧
        inside = ⟨depth, words, s.dropFailure⟩ := by
  by_cases hout : s.input.length < s.index ∧ lexicon.operators ≠ []
  · simp [inner, hout]
  · simp [inner, hout]

end

/-! ## Induction -/

/-- Inside an application references may lead less deep, or just as deep from a smaller grammar. -/
theorem lex_of_mem_inner (h : inside ∈ app.inner bindings) :
    Prod.Lex (· < ·) (· < ·) (inside.depth, sizeOf inside.grammar)
      (app.depth, sizeOf app.grammar) := by
  obtain ⟨depth, g, s⟩ := app
  cases g with
  | map f p | atomic p | peek p | notFollowedBy p | label name p | traced name render p
  | spanned f p =>
    rw [List.mem_singleton.mp h]
    exact .right _ (by simp +arith)
  | seqWith f p q =>
    rcases mem_inner_seqWith.mp h with rfl | ⟨x, t, -, rfl⟩
    · exact .right _ (by simp +arith)
    · exact .right _ (by simp +arith)
  | orElse p q =>
    rcases mem_inner_orElse.mp h with rfl | ⟨t, -, rfl⟩
    · exact .right _ (by simp +arith)
    · exact .right _ (by simp +arith)
  | many p =>
    obtain ⟨t, -, rfl⟩ := mem_inner_many.mp h
    exact .right _ (by simp +arith)
  | ref x =>
    obtain ⟨shallower, g, rfl, -, rfl⟩ := mem_inner_ref.mp h
    exact .left _ _ (Nat.lt_succ_self shallower)
  | staged grammar lexer =>
    rcases mem_inner_staged.mp h with rfl | ⟨tokens, t, -, rfl⟩
    · exact .right _ (by simp +arith)
    · exact .right _ (by simp +arith)
  | terminal lexicon words =>
    obtain ⟨-, rfl⟩ := mem_inner_terminal.mp h
    exact .right _ (by simp +arith)
  | _ => cases h

theorem inner_wellFounded (bindings : Bindings S) :
    WellFounded fun inside app : Application S => inside ∈ app.inner bindings :=
  Subrelation.wf lex_of_mem_inner
    (InvImage.wf (fun app : Application S => (app.depth, sizeOf app.grammar))
      (Prod.lex Nat.lt_wfRel Nat.lt_wfRel).wf)

end Application

end Descent
