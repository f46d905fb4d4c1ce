import Descent.Proofs.PastEnd
import Descent.Proofs.Repetition
import Mathlib.Logic.Relation

/-!
What a parser does at a place of the input.

How a run ends depends on the place where it begins and on nothing else in its state. So a parser can
be taken for what it does at places: there it leads to another place with a value (`Parser.Yields`), or
it fails (`FailsAt`), or it is at fault (`FaultsAt`). What parsers do that are made of others follows
from what those do, without a word about states.
-/

namespace Descent

namespace Parser

variable {a : Alphabet} {α β γ : Type}

/-- From an index of the input a parser leads with a value to another index. -/
def Yields (p : Parser a α) (input : List a.Item) (i : Nat) (x : α) (j : Nat) : Prop :=
  ∃ t, p { input, index := i } = .ok x t ∧ t.index = j

/-- At an index of the input a parser fails. -/
def FailsAt (p : Parser a α) (input : List a.Item) (i : Nat) (severity : Severity) : Prop :=
  ∃ t, p { input, index := i } = .fail severity t

/-- At an index of the input a parser is at fault. -/
def FaultsAt (p : Parser a α) (input : List a.Item) (i : Nat) (f : Fault) : Prop :=
  p { input, index := i } = .fault f

section

variable {p : Parser a α} {input : List a.Item} {s : State a} {i j : Nat} {x : α}
  {severity severity' : Severity} {f : Fault}

/-! ## One end only -/

theorem Yields.not_failsAt (h : p.Yields input i x j) : ¬ p.FailsAt input i severity := by
  rintro ⟨u, hu⟩
  obtain ⟨t, ht, -⟩ := h
  cases ht.symm.trans hu

theorem Yields.not_faultsAt (h : p.Yields input i x j) : ¬ p.FaultsAt input i f := by
  intro hf
  obtain ⟨t, ht, -⟩ := h
  cases ht.symm.trans hf

theorem FailsAt.severity_eq (h : p.FailsAt input i severity) (h' : p.FailsAt input i severity') :
    severity = severity' := by
  obtain ⟨t, ht⟩ := h
  obtain ⟨u, hu⟩ := h'
  cases ht.symm.trans hu
  rfl

theorem FailsAt.not_faultsAt (h : p.FailsAt input i severity) : ¬ p.FaultsAt input i f := by
  intro hf
  obtain ⟨t, ht⟩ := h
  cases ht.symm.trans hf

/-! ## Runs

A run from whatever state ends as its parser does at the place. -/

theorem HistoryFree.yields_iff (hp : p.HistoryFree) :
    (∃ t, p s = .ok x t ∧ t.index = j) ↔ p.Yields s.input s.index x j := by
  constructor
  · rintro ⟨t, ht, rfl⟩
    obtain ⟨t₀, ht₀, rfl⟩ := hp.bare_ok ht
    exact ⟨t₀, ht₀, rfl⟩
  · rintro ⟨t₀, ht₀, rfl⟩
    exact ⟨_, hp.ok_at ht₀ rfl, rfl⟩

theorem HistoryFree.exists_yields_iff (hp : p.HistoryFree) :
    (∃ t, p s = .ok x t) ↔ ∃ j, p.Yields s.input s.index x j := by
  constructor
  · rintro ⟨t, ht⟩
    exact ⟨t.index, hp.yields_iff.mp ⟨t, ht, rfl⟩⟩
  · rintro ⟨j, hj⟩
    obtain ⟨t, ht, -⟩ := hp.yields_iff.mpr hj
    exact ⟨t, ht⟩

theorem HistoryFree.failsAt_iff (hp : p.HistoryFree) :
    (∃ t, p s = .fail severity t) ↔ p.FailsAt s.input s.index severity := by
  constructor
  · rintro ⟨t, ht⟩
    obtain ⟨t₀, ht₀, -⟩ := hp.bare_fail ht
    exact ⟨t₀, ht₀⟩
  · rintro ⟨t₀, ht₀⟩
    exact ⟨_, hp.fail_at ht₀ rfl⟩

theorem HistoryFree.faultsAt_iff (hp : p.HistoryFree) :
    p s = .fault f ↔ p.FaultsAt s.input s.index f :=
  ⟨fun h => hp.bare_fault h, fun h => hp.fault_at h rfl⟩

end

/-! ## Sequence -/

section

variable {p : Parser a α} {q : Parser a β} (hq : q.HistoryFree) (hb : p.Backtracks)
  (f : α → β → γ) {input : List a.Item} {i k : Nat}

include hq hb

theorem seqWith_yields_iff {z : γ} : (seqWith f p q).Yields input i z k ↔
    ∃ x j y, p.Yields input i x j ∧ q.Yields input j y k ∧ z = f x y := by
  constructor
  · rintro ⟨u, hu, hindex⟩
    obtain ⟨x, t, y, ht, hy, rfl⟩ := exists_of_seqWith_ok hu
    have hrest := hq.yields_iff.mp ⟨u, hy, hindex⟩
    rw [(hb.ok ht).input] at hrest
    exact ⟨x, t.index, y, ⟨t, ht, rfl⟩, hrest, rfl⟩
  · rintro ⟨x, _, y, ⟨t, ht, rfl⟩, hrest, rfl⟩
    rw [← show t.input = input from (hb.ok ht).input] at hrest
    obtain ⟨u, hu, hindex⟩ := hq.yields_iff.mpr hrest
    exact ⟨u, seqWith_ok_ok ht hu, hindex⟩

theorem seqWith_failsAt_iff {severity : Severity} : (seqWith f p q).FailsAt input i severity ↔
    p.FailsAt input i severity ∨ ∃ x j, p.Yields input i x j ∧ q.FailsAt input j severity := by
  constructor
  · rintro ⟨u, hu⟩
    rcases cases_of_seqWith_fail hu with ⟨t, ht⟩ | ⟨x, t, v, ht, hv⟩
    · exact .inl ⟨t, ht⟩
    · have hrest := hq.failsAt_iff.mp ⟨v, hv⟩
      rw [(hb.ok ht).input] at hrest
      exact .inr ⟨x, t.index, ⟨t, ht, rfl⟩, hrest⟩
  · rintro (⟨t, ht⟩ | ⟨x, _, ⟨t, ht, rfl⟩, hrest⟩)
    · exact ⟨_, seqWith_fail ht⟩
    · rw [← show t.input = input from (hb.ok ht).input] at hrest
      obtain ⟨v, hv⟩ := hq.failsAt_iff.mpr hrest
      exact ⟨_, seqWith_ok_fail ht hv⟩

theorem seqWith_faultsAt_iff {g : Fault} : (seqWith f p q).FaultsAt input i g ↔
    p.FaultsAt input i g ∨ ∃ x j, p.Yields input i x j ∧ q.FaultsAt input j g := by
  constructor
  · intro h
    rcases cases_of_seqWith_fault h with ht | ⟨x, t, ht, hg⟩
    · exact .inl ht
    · have hrest := hq.faultsAt_iff.mp hg
      rw [(hb.ok ht).input] at hrest
      exact .inr ⟨x, t.index, ⟨t, ht, rfl⟩, hrest⟩
  · rintro (hg | ⟨x, _, ⟨t, ht, rfl⟩, hrest⟩)
    · exact seqWith_fault hg
    · rw [← show t.input = input from (hb.ok ht).input] at hrest
      exact seqWith_ok_fault ht (hq.faultsAt_iff.mpr hrest)

end

/-! ## Values, and one or none -/

section

variable {p : Parser a α} {input : List a.Item} {i j : Nat}

theorem map_yields_iff (f : α → β) {y : β} :
    (map f p).Yields input i y j ↔ ∃ x, p.Yields input i x j ∧ y = f x := by
  unfold Yields
  rw [map_apply]
  cases p { input, index := i } with
  | ok x t =>
    constructor
    · rintro ⟨u, ⟨⟩, hindex⟩
      exact ⟨x, ⟨t, rfl, hindex⟩, rfl⟩
    · rintro ⟨x, ⟨u, ⟨⟩, hindex⟩, rfl⟩
      exact ⟨t, rfl, hindex⟩
  | fail severity t => simp
  | fault g => simp

theorem map_failsAt_iff (f : α → β) {severity : Severity} :
    (map f p).FailsAt input i severity ↔ p.FailsAt input i severity := by
  unfold FailsAt
  rw [map_apply]
  cases p { input, index := i } <;> simp

theorem map_faultsAt_iff (f : α → β) {g : Fault} :
    (map f p).FaultsAt input i g ↔ p.FaultsAt input i g := by
  unfold FaultsAt
  rw [map_apply]
  cases p { input, index := i } <;> simp

theorem optional_yields_iff {found : Option α} : (optional p).Yields input i found j ↔
    (∃ x, p.Yields input i x j ∧ found = some x) ∨
      p.FailsAt input i .recoverable ∧ found = none ∧ j = i := by
  constructor
  · rintro ⟨u, hu, hindex⟩
    rcases optional_cases p { input, index := i } with
      ⟨x, t, ht, h⟩ | ⟨t, ht, h⟩ | ⟨t, -, h⟩ | ⟨g, -, h⟩
    · cases hu.symm.trans h
      exact .inl ⟨x, ⟨u, ht, hindex⟩, rfl⟩
    · cases hu.symm.trans h
      exact .inr ⟨⟨t, ht⟩, rfl, hindex.symm⟩
    · cases hu.symm.trans h
    · cases hu.symm.trans h
  · rintro (⟨x, ⟨t, ht, hindex⟩, rfl⟩ | ⟨⟨t, ht⟩, rfl, rfl⟩)
    · exact ⟨t, optional_ok ht, hindex⟩
    · exact ⟨_, optional_recoverable ht, rfl⟩

theorem optional_failsAt_iff {severity : Severity} : (optional p).FailsAt input i severity ↔
    severity = .committed ∧ p.FailsAt input i .committed := by
  constructor
  · rintro ⟨u, hu⟩
    rcases optional_cases p { input, index := i } with
      ⟨x, t, -, h⟩ | ⟨t, -, h⟩ | ⟨t, ht, h⟩ | ⟨g, -, h⟩
    · cases hu.symm.trans h
    · cases hu.symm.trans h
    · cases hu.symm.trans h
      exact ⟨rfl, u, ht⟩
    · cases hu.symm.trans h
  · rintro ⟨rfl, t, ht⟩
    exact ⟨t, optional_committed ht⟩

theorem optional_faultsAt_iff {f : Fault} :
    (optional p).FaultsAt input i f ↔ p.FaultsAt input i f := by
  constructor
  · intro hf
    rcases optional_cases p { input, index := i } with
      ⟨x, t, -, h⟩ | ⟨t, -, h⟩ | ⟨t, -, h⟩ | ⟨g, hg, h⟩
    · cases hf.symm.trans h
    · cases hf.symm.trans h
    · cases hf.symm.trans h
    · cases hf.symm.trans h
      exact hg
  · exact optional_fault

/-! One, or a value in its stead. -/

theorem optionalOr_yields_iff (default : α) {x : α} :
    (map (·.getD default) (optional p)).Yields input i x j ↔
      p.Yields input i x j ∨ p.FailsAt input i .recoverable ∧ x = default ∧ j = i := by
  rw [map_yields_iff]
  constructor
  · rintro ⟨found, hfound, rfl⟩
    rcases optional_yields_iff.mp hfound with ⟨x, hx, rfl⟩ | ⟨hfails, rfl, rfl⟩
    · exact .inl hx
    · exact .inr ⟨hfails, rfl, rfl⟩
  · rintro (hx | ⟨hfails, rfl, rfl⟩)
    · exact ⟨some x, optional_yields_iff.mpr (.inl ⟨x, hx, rfl⟩), rfl⟩
    · exact ⟨none, optional_yields_iff.mpr (.inr ⟨hfails, rfl, rfl⟩), rfl⟩

theorem optionalOr_failsAt_iff (default : α) {severity : Severity} :
    (map (·.getD default) (optional p)).FailsAt input i severity ↔
      severity = .committed ∧ p.FailsAt input i .committed :=
  (map_failsAt_iff _).trans optional_failsAt_iff

theorem optionalOr_faultsAt_iff (default : α) {f : Fault} :
    (map (·.getD default) (optional p)).FaultsAt input i f ↔ p.FaultsAt input i f :=
  (map_faultsAt_iff _).trans optional_faultsAt_iff

end

/-! ## Repetition -/

/-- The places of a repetition, without the values. -/
theorem exists_steps_iff {p : Parser a α} {input : List a.Item} {i k : Nat} :
    (∃ xs, p.Steps input i xs k) ↔
      Relation.ReflTransGen (fun i j => i < j ∧ ∃ x, p.Yields input i x j) i k := by
  constructor
  · rintro ⟨xs, h⟩
    induction h with
    | none i => exact .refl
    | step run moved rest ih => exact .head ⟨moved, _, _, run, rfl⟩ ih
  · intro h
    induction h using Relation.ReflTransGen.head_induction_on with
    | refl => exact ⟨[], .none _⟩
    | head move _ ih =>
      obtain ⟨moved, x, t, run, rfl⟩ := move
      obtain ⟨xs, rest⟩ := ih
      exact ⟨x :: xs, .step run moved rest⟩

section

variable {p : Parser a α} (hp : p.HistoryFree) (hb : p.Backtracks) (he : p.StandsPastEnd)
  {input : List a.Item} {i j : Nat}

include hp hb he

theorem many_yields_iff {xs : List α} : (many p).Yields input i xs j ↔
    p.Steps input i xs j ∧ p.FailsAt input j .recoverable :=
  many_ok_iff hp hb (he.settles hb { input, index := i }) xs j

theorem oneOrMore_yields_iff {xs : List α} : (seqWith List.cons p (many p)).Yields input i xs j ↔
    ∃ x k rest, p.Yields input i x k ∧ p.Steps input k rest j ∧ p.FailsAt input j .recoverable ∧
      xs = x :: rest := by
  rw [seqWith_yields_iff hp.many hb]
  simp only [many_yields_iff hp hb he, and_assoc]

theorem many_failsAt_iff {severity : Severity} : (many p).FailsAt input i severity ↔
    severity = .committed ∧ ∃ xs k, p.Steps input i xs k ∧ p.FailsAt input k .committed := by
  have hcommitted := many_committed_iff hp hb (he.settles hb { input, index := i })
  constructor
  · rintro ⟨t, ht⟩
    cases severity with
    | recoverable => exact absurd ht (many_ne_recoverable p _ t)
    | committed => exact ⟨rfl, hcommitted.mp ⟨t, ht, (hb.many.fail ht).2⟩⟩
  · rintro ⟨rfl, hsteps⟩
    obtain ⟨t, ht, -⟩ := hcommitted.mpr hsteps
    exact ⟨t, ht⟩

theorem many_faultsAt_iff {f : Fault} : (many p).FaultsAt input i f ↔
    ∃ xs k, p.Steps input i xs k ∧ p.BreaksDown input k f :=
  many_fault_iff hp hb (he.settles hb { input, index := i }) f

end

end Parser

end Descent
