import Descent.Proofs.Application

/-!
A run is at fault in one place.

If something applied inside is at fault, so is the whole, in the same way
(`Application.outcome_of_inner_fault`), and nothing else inside is (`Application.inner_fault_unique`).
So it can be told which repetition is meant when a run is at fault because one stands still: there is
only one (`Application.StandsStill.unique`).
-/

namespace Descent

/-! ## Rounds -/

namespace Parser

variable {a : Alphabet} {α : Type} {p : Parser a α} {s t u : State a} {g : Fault}

/-- A repetition is at fault if it is in one of its rounds. -/
theorem iterate_of_mem_rounds {n : Nat} (ht : t ∈ p.rounds n s)
    (hround : ∀ m, iterate p (m + 1) t = .fault g) : iterate p n s = .fault g := by
  induction n generalizing s with
  | zero => cases ht
  | succ n ih =>
    rcases List.mem_cons.mp ht with rfl | ht
    · exact hround n
    · cases h : p s with
      | ok x v =>
        by_cases hindex : v.index = s.index
        · simp only [h, if_pos hindex] at ht
          cases ht
        · simp only [h, if_neg hindex] at ht
          rw [iterate_moved h hindex, ih ht]
          rfl
      | fail severity v => simp only [h] at ht; cases ht
      | fault f => simp only [h] at ht; cases ht

/-- A round does not go on if its operand fails, is at fault or takes nothing. -/
def Stops (p : Parser a α) (t : State a) : Prop :=
  ∀ x v, p t = .ok x v → v.index = t.index

theorem stops_of_fault (h : p t = .fault g) : p.Stops t := by
  intro x v hok
  rw [h] at hok
  cases hok

/-- There is only one round that does not go on, the last one. -/
theorem rounds_stops_unique {n : Nat} (ht : t ∈ p.rounds n s) (hu : u ∈ p.rounds n s)
    (hstop : p.Stops t) (hstop' : p.Stops u) : t = u := by
  induction n generalizing s with
  | zero => cases ht
  | succ n ih =>
    have hlast : p.Stops s → p.rounds (n + 1) s = [s] := by
      intro h
      rw [rounds]
      cases hs : p s with
      | ok x v => simp only [if_pos (h x v hs)]
      | fail severity v => rfl
      | fault f => rfl
    rcases List.mem_cons.mp ht with rfl | hrest
    · rw [hlast hstop] at hu
      exact (List.mem_singleton.mp hu).symm
    rcases List.mem_cons.mp hu with rfl | hrest'
    · rw [hlast hstop'] at ht
      exact List.mem_singleton.mp ht
    cases h : p s with
    | ok x v =>
      by_cases hindex : v.index = s.index
      · simp only [h, if_pos hindex] at hrest
        cases hrest
      · simp only [h, if_neg hindex] at hrest hrest'
        exact ih hrest hrest'
    | fail severity v => simp only [h] at hrest; cases hrest
    | fault f => simp only [h] at hrest; cases hrest

end Parser

namespace Application

variable {S : Scope} {bindings : Bindings S} {app inside inside' : Application S} {f f' : Fault}

/-! ## One application -/

/-- A fault inside an application is its own. -/
theorem outcome_of_inner_fault (h : inside ∈ app.inner bindings)
    (hf : inside.outcome bindings = .fault f) : app.outcome bindings = .fault f := by
  obtain ⟨depth, g, s⟩ := app
  show g.run (bindings.resolver depth) s = .fault f
  cases g with
  | map f p =>
    obtain rfl := List.mem_singleton.mp h
    rw [Grammar.run, Parser.map_apply, show p.run _ s = _ from hf]
    rfl
  | atomic p =>
    obtain rfl := List.mem_singleton.mp h
    exact Parser.atomic_fault hf
  | peek p =>
    obtain rfl := List.mem_singleton.mp h
    rw [Grammar.run, Parser.peek_apply, show p.run _ s = _ from hf]
    rfl
  | notFollowedBy p name =>
    obtain rfl := List.mem_singleton.mp h
    exact Parser.notFollowedBy_fault hf
  | label name p =>
    obtain rfl := List.mem_singleton.mp h
    exact Parser.label_fault hf
  | traced name render p =>
    obtain rfl := List.mem_singleton.mp h
    exact Parser.traced_fault hf
  | spanned f p =>
    obtain rfl := List.mem_singleton.mp h
    exact Parser.spanned_fault hf
  | seqWith f p q =>
    rcases mem_inner_seqWith.mp h with rfl | ⟨x, t, hrun, rfl⟩
    · exact Parser.seqWith_fault hf
    · exact Parser.seqWith_ok_fault hrun hf
  | orElse p q =>
    rcases mem_inner_orElse.mp h with rfl | ⟨t, hrun, rfl⟩
    · exact Parser.orElse_fault hf
    · exact (Parser.orElse_recoverable hrun).trans hf
  | many p =>
    obtain ⟨t, ht, rfl⟩ := mem_inner_many.mp h
    exact Parser.many_fault (Parser.iterate_of_mem_rounds ht fun _ => Parser.iterate_fault hf)
  | ref x =>
    obtain ⟨shallower, g, rfl, hx, rfl⟩ := mem_inner_ref.mp h
    simp only [Grammar.run, Bindings.resolver, hx]
    exact hf
  | staged grammar lexer =>
    rcases mem_inner_staged.mp h with rfl | ⟨tokens, t, hrun, rfl⟩
    · exact Parser.staged_fault hf
    · exact Parser.staged_ok_fault hrun hf
  | terminal lexicon words =>
    obtain ⟨hwithin, rfl⟩ := mem_inner_terminal.mp h
    exact Parser.terminal_fault hwithin (Parser.scanWord_fault hf)
  | _ => cases h

/-- Inside an application at most one is at fault: what comes after it is not applied. -/
theorem inner_fault_unique (h : inside ∈ app.inner bindings) (h' : inside' ∈ app.inner bindings)
    (hf : inside.outcome bindings = .fault f) (hf' : inside'.outcome bindings = .fault f') :
    inside = inside' := by
  obtain ⟨depth, g, s⟩ := app
  cases g with
  | map f p | atomic p | peek p | notFollowedBy p name | label name p | traced name render p
  | spanned f p =>
    rw [List.mem_singleton.mp h, List.mem_singleton.mp h']
  | seqWith f p q =>
    rcases mem_inner_seqWith.mp h with rfl | ⟨x, t, hrun, rfl⟩
    · rcases mem_inner_seqWith.mp h' with rfl | ⟨x, t, hrun, rfl⟩
      · rfl
      · cases hrun.symm.trans hf
    · rcases mem_inner_seqWith.mp h' with rfl | ⟨x', t', hrun', rfl⟩
      · cases hrun.symm.trans hf'
      · cases hrun.symm.trans hrun'
        rfl
  | orElse p q =>
    rcases mem_inner_orElse.mp h with rfl | ⟨t, hrun, rfl⟩
    · rcases mem_inner_orElse.mp h' with rfl | ⟨t, hrun, rfl⟩
      · rfl
      · cases hrun.symm.trans hf
    · rcases mem_inner_orElse.mp h' with rfl | ⟨t', hrun', rfl⟩
      · cases hrun.symm.trans hf'
      · cases hrun.symm.trans hrun'
        rfl
  | many p =>
    obtain ⟨t, ht, rfl⟩ := mem_inner_many.mp h
    obtain ⟨u, hu, rfl⟩ := mem_inner_many.mp h'
    rw [Parser.rounds_stops_unique ht hu (Parser.stops_of_fault hf) (Parser.stops_of_fault hf')]
  | ref x =>
    obtain ⟨shallower, g, rfl, hx, rfl⟩ := mem_inner_ref.mp h
    obtain ⟨shallower', g', hdepth, hx', rfl⟩ := mem_inner_ref.mp h'
    cases hdepth
    cases hx.symm.trans hx'
    rfl
  | staged grammar lexer =>
    rcases mem_inner_staged.mp h with rfl | ⟨tokens, t, hrun, rfl⟩
    · rcases mem_inner_staged.mp h' with rfl | ⟨tokens, t, hrun, rfl⟩
      · rfl
      · cases hrun.symm.trans hf
    · rcases mem_inner_staged.mp h' with rfl | ⟨tokens', t', hrun', rfl⟩
      · cases hrun.symm.trans hf'
      · cases hrun.symm.trans hrun'
        rfl
  | terminal lexicon words =>
    obtain ⟨-, rfl⟩ := mem_inner_terminal.mp h
    obtain ⟨-, rfl⟩ := mem_inner_terminal.mp h'
    rfl
  | _ => cases h

/-! ## Repetitions that stand still -/

/-- In the course of an application a repetition over an alphabet stands still at an index: its operand
succeeds there and takes nothing. -/
inductive StandsStill (bindings : Bindings S) (app : Application S) (a : Alphabet) (index : Nat) :
    Prop where
  | intro {α : Type} {depth : Nat} {p : Grammar S a α} {s t u : State a} {x : α}
      (reaches : app.Reaches bindings ⟨depth, .many p, s⟩)
      (round : t ∈ (p.run (bindings.resolver depth)).rounds (s.input.length - s.index + 1) s)
      (run : p.run (bindings.resolver depth) t = .ok x u) (still : u.index = t.index)
      (here : t.index = index)

namespace StandsStill

variable {a b : Alphabet} {i j : Nat}

theorem of_inner (hinside : inside ∈ app.inner bindings) (h : inside.StandsStill bindings a i) :
    app.StandsStill bindings a i := by
  obtain ⟨reaches, round, run, still, here⟩ := h
  exact ⟨.head hinside reaches, round, run, still, here⟩

/-- It is the application itself that stands still, or one inside it. -/
theorem cases_inner (h : app.StandsStill bindings a i) :
    (∃ (α : Type) (depth : Nat) (p : Grammar S a α) (s t : State a), app = ⟨depth, .many p, s⟩ ∧
      t ∈ (p.run (bindings.resolver depth)).rounds (s.input.length - s.index + 1) s ∧
      (∃ x u, p.run (bindings.resolver depth) t = .ok x u ∧ u.index = t.index) ∧ t.index = i) ∨
    ∃ inside ∈ app.inner bindings, inside.StandsStill bindings a i := by
  obtain ⟨reaches, round, run, still, here⟩ := h
  rcases reaches.cases_head with rfl | ⟨inside, hinside, reaches⟩
  · exact .inl ⟨_, _, _, _, _, rfl, round, ⟨_, _, run, still⟩, here⟩
  · exact .inr ⟨inside, hinside, reaches, round, run, still, here⟩

/-- A run in which a repetition stands still is at fault for it. -/
theorem outcome_eq (h : app.StandsStill bindings a i) :
    app.outcome bindings = .fault (.emptyRepetition i) := by
  induction app using (inner_wellFounded bindings).induction with
  | h app ih =>
  rcases h.cases_inner with ⟨α, depth, p, s, t, rfl, ht, ⟨x, u, hrun, hstill⟩, rfl⟩ |
    ⟨inside, hinside, h⟩
  · exact Parser.many_fault (Parser.iterate_of_mem_rounds ht fun _ =>
      Parser.iterate_stuck hrun hstill)
  · exact outcome_of_inner_fault hinside (ih inside hinside h)

/-- In a repetition that stands still itself nothing else does: its rounds before that have
succeeded. -/
theorem not_inner {α : Type} {depth : Nat} {p : Grammar S b α} {s t u : State b} {x : α}
    (ht : t ∈ (p.run (bindings.resolver depth)).rounds (s.input.length - s.index + 1) s)
    (hrun : p.run (bindings.resolver depth) t = .ok x u) (hstill : u.index = t.index)
    (hinside : inside ∈ inner bindings ⟨depth, .many p, s⟩) : ¬ inside.StandsStill bindings a i := by
  intro h
  obtain ⟨v, hv, rfl⟩ := mem_inner_many.mp hinside
  have hfault : p.run (bindings.resolver depth) v = .fault (.emptyRepetition i) := h.outcome_eq
  have hstops : Parser.Stops (p.run (bindings.resolver depth)) t := by
    intro y w hok
    rw [hrun] at hok
    cases hok
    exact hstill
  obtain rfl := Parser.rounds_stops_unique ht hv hstops (Parser.stops_of_fault hfault)
  rw [hrun] at hfault
  cases hfault

/-- Only one repetition stands still in a run. -/
theorem unique (h : app.StandsStill bindings a i) (h' : app.StandsStill bindings b j) : a = b := by
  induction app using (inner_wellFounded bindings).induction with
  | h app ih =>
  rcases h.cases_inner with ⟨α, depth, p, s, t, rfl, ht, ⟨x, u, hrun, hstill⟩, -⟩ |
    ⟨inside, hinside, hin⟩
  · rcases h'.cases_inner with ⟨β, depth', q, s', t', happ, -⟩ | ⟨inside, hinside, hin'⟩
    · exact congrArg alphabet happ
    · exact absurd hin' (not_inner ht hrun hstill hinside)
  · rcases h'.cases_inner with ⟨β, depth', q, s', t', rfl, ht, ⟨x, u, hrun, hstill⟩, -⟩ |
      ⟨inside', hinside', hin'⟩
    · exact absurd hin (not_inner ht hrun hstill hinside)
    · obtain rfl := inner_fault_unique hinside hinside' hin.outcome_eq hin'.outcome_eq
      exact ih inside hinside hin hin'

end StandsStill

end Application

end Descent
