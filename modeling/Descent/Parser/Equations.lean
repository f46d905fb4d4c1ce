import Descent.Lexicon.Tokenize
import Descent.Parser.Staged

/-!
What a parser gives, by how its operands end. There is one equation for each way through each
parser, so that a statement about runs follows the outcomes of the operands and never opens a
definition.
-/

namespace Descent

/-- Where a look from `s` that ended in `t` leaves: only the events are new. -/
def State.afterLook {a : Alphabet} (s t : State a) : State a :=
  { t with index := s.index, mark := s.mark, failure := s.failure }

/-- Where a grammar of tokens leaves a text: `s` is where the stages began, `t` where lexing ended
and `nested` where the grammar ended among the tokens. -/
def State.afterStages (s t : State .text) (tokens : List Token) (nested : State .tokens) :
    State .text :=
  { t with
    failure := Failure.furthest s.failure
      (nested.failure.map (·.toSource tokens t.input t.index))
    events := nested.events }

/-- The outcome with the place set back if it is a failure. -/
def Outcome.backTo {a : Alphabet} {α : Type} (index : Nat) : Outcome a α → Outcome a α
  | fail severity s => fail severity (s.restore index)
  | outcome => outcome

namespace Parser

variable {a : Alphabet} {α β γ : Type} {s t u : State a} {severity : Severity} {g : Fault}

/-! ## Sequence and choice -/

section

variable {p : Parser a α} {x : α}

theorem attempt_ok (h : p s = .ok x t) : attempt p s = .ok x t := by
  simp only [attempt, h]

theorem attempt_fail (h : p s = .fail severity t) :
    attempt p s = .fail severity (t.restore s.index) := by
  simp only [attempt, h]

theorem attempt_fault (h : p s = .fault g) : attempt p s = .fault g := by
  simp only [attempt, h]

theorem map_apply (f : α → β) (p : Parser a α) (s : State a) : map f p s = (p s).map f := rfl

section

variable {f : α → β → γ} {q : Parser a β} {y : β}

theorem seqWith_ok_ok (h : p s = .ok x t) (h' : q t = .ok y u) :
    seqWith f p q s = .ok (f x y) u :=
  attempt_ok (by rw [h, Outcome.bind_ok, h', Outcome.map_ok])

theorem seqWith_ok_fail (h : p s = .ok x t) (h' : q t = .fail severity u) :
    seqWith f p q s = .fail severity (u.restore s.index) :=
  attempt_fail (by rw [h, Outcome.bind_ok, h', Outcome.map_fail])

theorem seqWith_ok_fault (h : p s = .ok x t) (h' : q t = .fault g) :
    seqWith f p q s = .fault g :=
  attempt_fault (by rw [h, Outcome.bind_ok, h', Outcome.map_fault])

theorem seqWith_fail (h : p s = .fail severity t) :
    seqWith f p q s = .fail severity (t.restore s.index) :=
  attempt_fail (by rw [h, Outcome.bind_fail])

theorem seqWith_fault (h : p s = .fault g) : seqWith f p q s = .fault g :=
  attempt_fault (by rw [h, Outcome.bind_fault])

/-- Once the first part has succeeded, a sequence ends as the second part does. -/
theorem seqWith_of_ok (h : p s = .ok x t) :
    seqWith f p q s = ((q t).map (f x)).backTo s.index := by
  cases h' : q t with
  | ok y u => exact seqWith_ok_ok h h'
  | fail severity u => exact seqWith_ok_fail h h'
  | fault g => exact seqWith_ok_fault h h'

/-- A sequence succeeds in one way only. -/
theorem exists_of_seqWith_ok {z : γ} (h : seqWith f p q s = .ok z u) :
    ∃ x t y, p s = .ok x t ∧ q t = .ok y u ∧ z = f x y := by
  cases hp : p s with
  | ok x t =>
    cases hq : q t with
    | ok y v => rw [seqWith_ok_ok hp hq] at h; cases h; exact ⟨x, t, y, rfl, hq, rfl⟩
    | fail severity v => rw [seqWith_ok_fail hp hq] at h; cases h
    | fault g => rw [seqWith_ok_fault hp hq] at h; cases h
  | fail severity t => rw [seqWith_fail hp] at h; cases h
  | fault g => rw [seqWith_fault hp] at h; cases h

/-- A sequence fails in its first part or in its second. -/
theorem cases_of_seqWith_fail (h : seqWith f p q s = .fail severity u) :
    (∃ t, p s = .fail severity t) ∨ ∃ x t v, p s = .ok x t ∧ q t = .fail severity v := by
  cases hp : p s with
  | ok x t =>
    cases hq : q t with
    | ok y v => rw [seqWith_ok_ok hp hq] at h; cases h
    | fail severity v => rw [seqWith_ok_fail hp hq] at h; cases h; exact .inr ⟨x, t, v, rfl, hq⟩
    | fault g => rw [seqWith_ok_fault hp hq] at h; cases h
  | fail severity t => rw [seqWith_fail hp] at h; cases h; exact .inl ⟨t, rfl⟩
  | fault g => rw [seqWith_fault hp] at h; cases h

/-- A sequence is at fault in its first part or in its second. -/
theorem cases_of_seqWith_fault (h : seqWith f p q s = .fault g) :
    p s = .fault g ∨ ∃ x t, p s = .ok x t ∧ q t = .fault g := by
  cases hp : p s with
  | ok x t =>
    cases hq : q t with
    | ok y v => rw [seqWith_ok_ok hp hq] at h; cases h
    | fail severity v => rw [seqWith_ok_fail hp hq] at h; cases h
    | fault g => rw [seqWith_ok_fault hp hq] at h; cases h; exact .inr ⟨x, t, rfl, hq⟩
  | fail severity t => rw [seqWith_fail hp] at h; cases h
  | fault g => rw [seqWith_fault hp] at h; cases h; exact .inl rfl

/-- The parts of a sequence may be replaced by what does the same where they are applied. -/
theorem seqWith_congr {p' : Parser a α} {q' : Parser a β} (hp : p s = p' s)
    (hq : ∀ x t, p' s = .ok x t → q t = q' t) : seqWith f p q s = seqWith f p' q' s := by
  cases h : p' s with
  | ok x t => rw [seqWith_of_ok (hp.trans h), seqWith_of_ok h, hq x t h]
  | fail severity t => rw [seqWith_fail (hp.trans h), seqWith_fail h]
  | fault g => rw [seqWith_fault (hp.trans h), seqWith_fault h]

end

variable {q : Parser a α}

theorem orElse_ok (h : p s = .ok x t) : orElse p q s = .ok x t := by
  simp only [orElse, h]

theorem orElse_recoverable (h : p s = .fail .recoverable t) :
    orElse p q s = q (t.restore s.index) := by
  simp only [orElse, h]

theorem orElse_committed (h : p s = .fail .committed t) :
    orElse p q s = .fail .committed t := by
  simp only [orElse, h]

theorem orElse_fault (h : p s = .fault g) : orElse p q s = .fault g := by
  simp only [orElse, h]

/-- What does not fail recoverably leaves an alternative nothing to do. -/
theorem orElse_of_ne_recoverable (h : ∀ t, p s ≠ .fail .recoverable t) : orElse p q s = p s := by
  cases hs : p s with
  | ok x t => exact orElse_ok hs
  | fail severity t =>
    cases severity with
    | recoverable => exact absurd hs (h t)
    | committed => exact orElse_committed hs
  | fault f => exact orElse_fault hs

/-- Alternatives may be replaced by what does the same where they are applied. -/
theorem orElse_congr {p' q' : Parser a α} (hp : p s = p' s)
    (hq : ∀ t, p' s = .fail .recoverable t → q (t.restore s.index) = q' (t.restore s.index)) :
    orElse p q s = orElse p' q' s := by
  cases h : p' s with
  | ok x t => rw [orElse_ok (hp.trans h), orElse_ok h]
  | fail severity t =>
    cases severity with
    | recoverable => rw [orElse_recoverable (hp.trans h), orElse_recoverable h, hq t h]
    | committed => rw [orElse_committed (hp.trans h), orElse_committed h]
  | fault g => rw [orElse_fault (hp.trans h), orElse_fault h]

/-- One or none. -/
def optional (p : Parser a α) : Parser a (Option α) :=
  orElse (map some p) (pure none)

theorem optional_ok (h : p s = .ok x t) : optional p s = .ok (some x) t :=
  orElse_ok (by rw [map_apply, h, Outcome.map_ok])

theorem optional_recoverable (h : p s = .fail .recoverable t) :
    optional p s = .ok none (t.restore s.index) :=
  orElse_recoverable (q := pure none) (by rw [map_apply, h, Outcome.map_fail])

theorem optional_committed (h : p s = .fail .committed t) :
    optional p s = .fail .committed t :=
  orElse_committed (by rw [map_apply, h, Outcome.map_fail])

theorem optional_fault (h : p s = .fault g) : optional p s = .fault g :=
  orElse_fault (by rw [map_apply, h, Outcome.map_fault])

/-- The ways in which one or none ends, by how the parser ends. -/
theorem optional_cases (p : Parser a α) (s : State a) :
    (∃ x t, p s = .ok x t ∧ optional p s = .ok (some x) t) ∨
    (∃ t, p s = .fail .recoverable t ∧ optional p s = .ok none (t.restore s.index)) ∨
    (∃ t, p s = .fail .committed t ∧ optional p s = .fail .committed t) ∨
    ∃ g, p s = .fault g ∧ optional p s = .fault g := by
  cases h : p s with
  | ok x t => exact .inl ⟨x, t, rfl, optional_ok h⟩
  | fail severity t =>
    cases severity with
    | recoverable => exact .inr (.inl ⟨t, rfl, optional_recoverable h⟩)
    | committed => exact .inr (.inr (.inl ⟨t, rfl, optional_committed h⟩))
  | fault g => exact .inr (.inr (.inr ⟨g, rfl, optional_fault h⟩))

/-! ## Lookahead and commitment -/

theorem atomic_ok (h : p { s with mark := s.index } = .ok x t) :
    atomic p s = .ok x (t.raiseMark s.mark) := by
  simp only [atomic, h, Outcome.mapState]

theorem atomic_consumed (h : p { s with mark := s.index } = .fail .recoverable t)
    (hmark : s.index < t.mark) :
    atomic p s = .fail .committed ((t.raiseMark s.mark).restore s.index) := by
  simp only [atomic, h, if_pos hmark]

theorem atomic_untouched (h : p { s with mark := s.index } = .fail .recoverable t)
    (hmark : ¬ s.index < t.mark) :
    atomic p s = .fail .recoverable (t.raiseMark s.mark) := by
  simp only [atomic, h, if_neg hmark]

theorem atomic_committed (h : p { s with mark := s.index } = .fail .committed t) :
    atomic p s = .fail .committed (t.raiseMark s.mark) := by
  simp only [atomic, h, Outcome.mapState]

theorem atomic_fault (h : p { s with mark := s.index } = .fault g) : atomic p s = .fault g := by
  simp only [atomic, h, Outcome.mapState]

theorem peek_apply (p : Parser a α) (s : State a) :
    peek p s = (p s).mapState fun t => { t with index := s.index, mark := s.mark } := rfl

variable {name : String}

theorem notFollowedBy_ok (h : p s.dropFailure = .ok x t) :
    notFollowedBy p name s =
      .fail .recoverable ((s.afterLook t).refuse ("unexpected " ++ name)) := by
  simp only [notFollowedBy, h, State.afterLook]

theorem notFollowedBy_fail (h : p s.dropFailure = .fail severity t) :
    notFollowedBy p name s = .ok () (s.afterLook t) := by
  simp only [notFollowedBy, h, State.afterLook]

theorem notFollowedBy_fault (h : p s.dropFailure = .fault g) :
    notFollowedBy p name s = .fault g := by
  simp only [notFollowedBy, h]

/-! ## Repetition -/

variable {n : Nat}

theorem iterate_stuck (h : p s = .ok x t) (hindex : t.index = s.index) :
    iterate p (n + 1) s = .fault (.emptyRepetition s.index) := by
  simp only [iterate, h, if_pos hindex]

theorem iterate_moved (h : p s = .ok x t) (hindex : t.index ≠ s.index) :
    iterate p (n + 1) s = (iterate p n t).map (x :: ·) := by
  simp only [iterate, h, if_neg hindex]

theorem iterate_recoverable (h : p s = .fail .recoverable t) :
    iterate p (n + 1) s = .ok [] (t.restore s.index) := by
  simp only [iterate, h]

theorem iterate_committed (h : p s = .fail .committed t) :
    iterate p (n + 1) s = .fail .committed t := by
  simp only [iterate, h]

theorem iterate_fault (h : p s = .fault g) : iterate p (n + 1) s = .fault g := by
  simp only [iterate, h]

variable {xs : List α}

theorem many_ok (h : iterate p (s.input.length - s.index + 1) s = .ok xs t) :
    many p s = .ok xs t :=
  attempt_ok h

theorem many_fail (h : iterate p (s.input.length - s.index + 1) s = .fail severity t) :
    many p s = .fail severity (t.restore s.index) :=
  attempt_fail (p := fun s => iterate p (s.input.length - s.index + 1) s) h

theorem many_fault (h : iterate p (s.input.length - s.index + 1) s = .fault g) :
    many p s = .fault g :=
  attempt_fault (p := fun s => iterate p (s.input.length - s.index + 1) s) h

/-- A repetition ends as its rounds do. -/
theorem many_apply (p : Parser a α) (s : State a) :
    many p s = (iterate p (s.input.length - s.index + 1) s).backTo s.index := by
  cases h : iterate p (s.input.length - s.index + 1) s with
  | ok xs t => exact many_ok h
  | fail severity t => exact many_fail h
  | fault g => exact many_fault h

theorem iterate_of_many_ok (h : many p s = .ok xs t) :
    iterate p (s.input.length - s.index + 1) s = .ok xs t := by
  cases hs : iterate p (s.input.length - s.index + 1) s with
  | ok ys u => rw [many_ok hs] at h; exact h
  | fail severity u => rw [many_fail hs] at h; cases h
  | fault g => rw [many_fault hs] at h; cases h

/-- What is repeated may be replaced by what does the same in every round. -/
theorem iterate_congr {q : Parser a α} {P : State a → Prop} (hpq : ∀ s, P s → p s = q s)
    (hround : ∀ s x t, P s → q s = .ok x t → P t) (n : Nat) (hs : P s) :
    iterate p n s = iterate q n s := by
  induction n generalizing s with
  | zero => rfl
  | succ n ih =>
    have hp := hpq s hs
    cases h : q s with
    | ok x t =>
      by_cases hindex : t.index = s.index
      · rw [iterate_stuck (hp.trans h) hindex, iterate_stuck h hindex]
      · rw [iterate_moved (hp.trans h) hindex, iterate_moved h hindex, ih (hround s x t hs h)]
    | fail severity t =>
      cases severity with
      | recoverable => rw [iterate_recoverable (hp.trans h), iterate_recoverable h]
      | committed => rw [iterate_committed (hp.trans h), iterate_committed h]
    | fault g => rw [iterate_fault (hp.trans h), iterate_fault h]

theorem many_congr {q : Parser a α} {P : State a → Prop} (hpq : ∀ s, P s → p s = q s)
    (hround : ∀ s x t, P s → q s = .ok x t → P t) (hs : P s) : many p s = many q s := by
  rw [many_apply, many_apply, iterate_congr hpq hround _ hs]

/-! ## Names -/

theorem label_ok (h : p (s.dropFailure.note (.enter name)) = .ok x t) :
    label name p s = .ok x ((t.note .leave).absorb s.failure) := by
  simp only [label, h]

theorem label_beyond (h : p (s.dropFailure.note (.enter name)) = .fail severity t)
    (hbeyond : t.failedBeyond s.index = true) :
    label name p s = .fail severity ((t.note .leave).absorb s.failure) := by
  have hleft : (t.note .leave).failedBeyond s.index = true := hbeyond
  simp only [label, h, hleft, if_true]

theorem label_named (h : p (s.dropFailure.note (.enter name)) = .fail severity t)
    (hbeyond : ¬ t.failedBeyond s.index = true) :
    label name p s = .fail severity
      (((((t.note .leave).dropFailure).restore s.index).expect [name]).absorb s.failure) := by
  have hleft : ¬ (t.note .leave).failedBeyond s.index = true := hbeyond
  simp only [label, h, if_neg hleft]

theorem label_fault (h : p (s.dropFailure.note (.enter name)) = .fault g) :
    label name p s = .fault g := by
  simp only [label, h]

variable {render : α → String}

theorem traced_ok (h : p (s.note (.enter name)) = .ok x t) :
    traced name render p s = .ok x ((t.note (.result (render x))).note .leave) := by
  simp only [traced, h]

theorem traced_fail (h : p (s.note (.enter name)) = .fail severity t) :
    traced name render p s = .fail severity (t.note .leave) := by
  simp only [traced, h, Outcome.mapState]

theorem traced_fault (h : p (s.note (.enter name)) = .fault g) :
    traced name render p s = .fault g := by
  simp only [traced, h, Outcome.mapState]

end

/-! ## Matched text -/

section

variable {s t : State .text} {p : Parser .text α} {x : α} {f : α → Nat → Nat → List Char → β}

theorem spanned_ok (h : p s = .ok x t) {text : List Char}
    (hslice : t.slice? s.index t.index = some text) :
    spanned f p s = .ok (f x s.index t.index text) t := by
  simp only [spanned, h, Outcome.bind_ok, hslice]

theorem spanned_out (h : p s = .ok x t) (hslice : t.slice? s.index t.index = none) :
    spanned f p s = .fault .outOfRange := by
  simp only [spanned, h, Outcome.bind_ok, hslice]

theorem spanned_fail (h : p s = .fail severity t) : spanned f p s = .fail severity t := by
  simp only [spanned, h, Outcome.bind_fail]

theorem spanned_fault (h : p s = .fault g) : spanned f p s = .fault g := by
  simp only [spanned, h, Outcome.bind_fault]

end

/-! ## Two stages -/

section

variable {s t : State .text} {u : State .tokens} {tokens : List Token}
  {grammar : Parser .tokens α} {lexer : Parser .text (List Token)} {x : α}

theorem staged_fail (h : lexer s.dropFailure = .fail severity t) :
    staged grammar lexer s = .fail severity { t with failure := s.failure } := by
  simp only [staged, h]

theorem staged_fault (h : lexer s.dropFailure = .fault g) :
    staged grammar lexer s = .fault g := by
  simp only [staged, h]

theorem staged_ok_ok (h : lexer s.dropFailure = .ok tokens t)
    (h' : grammar { input := tokens, events := t.events } = .ok x u) :
    staged grammar lexer s = .ok x (s.afterStages t tokens u) := by
  simp only [staged, h, h', State.afterStages]

theorem staged_ok_fail (h : lexer s.dropFailure = .ok tokens t)
    (h' : grammar { input := tokens, events := t.events } = .fail severity u) :
    staged grammar lexer s = .fail severity ((s.afterStages t tokens u).restore s.index) := by
  simp only [staged, h, h', State.afterStages]

theorem staged_ok_fault (h : lexer s.dropFailure = .ok tokens t)
    (h' : grammar { input := tokens, events := t.events } = .fault g) :
    staged grammar lexer s = .fault g := by
  simp only [staged, h, h']

end

/-! ## Operators and words -/

section

variable {s t : State .text} {words : Parser .text Unit} {x : Unit}

theorem scanWord_ok (h : words s.dropFailure = .ok x t) :
    scanWord words s =
      .ok (if s.index < t.index then some t.index else none, s.afterLook t) := by
  simp only [scanWord, h, State.afterLook]

theorem scanWord_fail (h : words s.dropFailure = .fail severity t) :
    scanWord words s = .ok (none, s.afterLook t) := by
  simp only [scanWord, h, State.afterLook]

theorem scanWord_fault (h : words s.dropFailure = .fault g) : scanWord words s = .error g := by
  simp only [scanWord, h]

theorem cut_ok {stop : Nat} {kind : String → TokenKind} {chars : List Char}
    (h : s.slice? s.index stop = some chars) :
    cut stop kind s = .ok ⟨s.index, stop, kind (.ofList chars), .ofList chars⟩
      (s.moveTo stop) := by
  simp only [cut, h]

theorem cut_out {stop : Nat} {kind : String → TokenKind} (h : s.slice? s.index stop = none) :
    cut stop kind s = .fault .outOfRange := by
  simp only [cut, h]

variable {lexicon : Lexicon}

theorem terminal_out (hlength : s.input.length < s.index) (hops : lexicon.operators ≠ []) :
    terminal lexicon words s = .fault .outOfRange := by
  simp only [terminal, hlength, hops, ne_eq, not_false_eq_true, and_self, if_true]

theorem terminal_fault (hs : ¬ (s.input.length < s.index ∧ lexicon.operators ≠ []))
    (h : scanWord words s = .error g) : terminal lexicon words s = .fault g := by
  simp only [terminal, if_neg hs, h]

/-- Once the words have been asked, the longer of an operator and a word is cut off, and there is a
failure only if there is neither. -/
theorem terminal_scanned (hs : ¬ (s.input.length < s.index ∧ lexicon.operators ≠ []))
    {stop : Option Nat} (h : scanWord words s = .ok (stop, t)) :
    (Lexicon.longestOperator? lexicon.operators (t.input.drop t.index) = none ∧ stop = none ∧
      terminal lexicon words s = .fail .recoverable (t.expect lexicon.operators)) ∨
    (∃ n, stop = some n ∧
      (∀ operator, Lexicon.longestOperator? lexicon.operators (t.input.drop t.index) =
        some operator → t.index + operator.length < n) ∧
      terminal lexicon words s = cut n lexicon.wordKind t) ∨
    (∃ operator, Lexicon.longestOperator? lexicon.operators (t.input.drop t.index) =
        some operator ∧ (∀ n, stop = some n → n ≤ t.index + operator.length) ∧
      terminal lexicon words s =
        cut (t.index + operator.length) (fun _ => .reserved operator) t) := by
  simp only [terminal, if_neg hs, h]
  cases Lexicon.longestOperator? lexicon.operators (t.input.drop t.index) with
  | none =>
    cases stop with
    | none => exact .inl ⟨rfl, rfl, rfl⟩
    | some n => exact .inr (.inl ⟨n, rfl, nofun, rfl⟩)
  | some operator =>
    cases stop with
    | none => exact .inr (.inr ⟨operator, rfl, nofun, rfl⟩)
    | some n =>
      by_cases hlonger : t.index + operator.length < n
      · refine .inr (.inl ⟨n, rfl, ?_, if_pos hlonger⟩)
        rintro _ ⟨⟩
        exact hlonger
      · refine .inr (.inr ⟨operator, rfl, ?_, if_neg hlonger⟩)
        rintro _ ⟨⟩
        exact Nat.le_of_not_lt hlonger

end

end Parser

end Descent
