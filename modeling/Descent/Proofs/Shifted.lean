import Descent.Proofs.Shiftable
import Descent.Proofs.Standstill
import Descent.Proofs.Tiling

/-!
A run does not look behind the place where it begins.

Two states are shifted (`State.Shifted`) if the second is the first with a text in front of it: the
place, the mark and the failure are further on by as much, and the rest of the failure is the same.
Shiftable grammars keep that up: from shifted states they end alike, with shifted values and in
shifted states (`Outcome.Shifted`), and a repetition that stands still does so in both runs. Among the
tokens that a lexer has found places are the same in both runs, only the tokens stand further on; so
what fails among them is further on when it is moved to the text (`Failure.toSource_shift`).
-/

namespace Descent

/-! ## Failures -/

namespace Failure

theorem shift_zero (failure : Failure) : failure.shift 0 = failure := by
  rw [shift, Nat.zero_add]

theorem record_shift (n : Nat) (kept : Option Failure) (new : Failure) :
    record (kept.map (shift n)) (new.shift n) = (record kept new).shift n := by
  cases kept with
  | none => rfl
  | some kept =>
    rw [Option.map_some]
    rcases Nat.lt_trichotomy new.position kept.position with h | h | h
    · rw [record_of_lt h, record_of_lt (Nat.add_lt_add_left h n)]
    · rw [record_of_eq h, record_of_eq (congrArg (n + ·) h)]
      rfl
    · rw [record_of_gt h, record_of_gt (Nat.add_lt_add_left h n)]

theorem furthest_shift (n : Nat) (earlier since : Option Failure) :
    furthest (earlier.map (shift n)) (since.map (shift n)) =
      (furthest earlier since).map (shift n) := by
  cases since with
  | none => rfl
  | some new => exact congrArg some (record_shift n earlier new)

/-- A failure among tokens is as much further on in the text as the tokens and the end of lexing. -/
theorem toSource_shift (failure : Failure) (tokens : List Token) (before text : List Char)
    (stopped : Nat) :
    failure.toSource (tokens.map (Token.shift before.length)) (before ++ text)
        (before.length + stopped) =
      (failure.toSource tokens text stopped).shift before.length := by
  have hnext : (before ++ text)[before.length + stopped]? = text[stopped]? := by
    rw [List.getElem?_append_right (Nat.le_add_right _ _), Nat.add_sub_cancel_left]
  rw [toSource, toSource, List.getElem?_map, hnext]
  cases tokens[failure.position]? with
  | some token => rfl
  | none => cases text[stopped]? <;> rfl

end Failure

/-! ## States -/

variable {a : Alphabet}

/-- The second of two states is the first with a text in front of its input. -/
structure State.Shifted (before : List Char) (input : List a.Item) (s s' : State a) : Prop where
  input_eq : s.input = input
  input_shift : s'.input = a.shiftInput before input
  index_le : s.index ≤ input.length
  index_shift : s'.index = a.offset before.length + s.index
  mark_shift : s'.mark = a.offset before.length + s.mark
  failure_shift : s'.failure = s.failure.map (Failure.shift (a.offset before.length))

namespace State.Shifted

variable {before : List Char} {input : List a.Item} {s s' t t' : State a}

/-! ### What is seen -/

theorem length_shift (hs : s.Shifted before input s') :
    s'.input.length = a.offset before.length + s.input.length := by
  rw [hs.input_eq, hs.input_shift, Alphabet.length_shiftInput]

theorem next?_shift (hs : s.Shifted before input s') :
    s'.next? = s.next?.map (a.shiftItem before.length) := by
  rw [next?, next?, hs.input_eq, hs.input_shift, hs.index_shift, Alphabet.getElem?_shiftInput]

theorem encountered_eq (hs : s.Shifted before input s') : s'.encountered = s.encountered := by
  rw [encountered, encountered, hs.next?_shift]
  cases s.next? with
  | none => rfl
  | some unit => exact congrArg Encountered.unit (Alphabet.describe_shiftItem _ unit)

theorem hasNext_eq (hs : s.Shifted before input s') : s'.hasNext = s.hasNext := by
  rw [hasNext, hasNext, hs.length_shift, hs.index_shift]
  exact decide_eq_decide.mpr Nat.add_lt_add_iff_left

theorem failedBeyond_eq (ht : t.Shifted before input t') (hs : s.Shifted before input s') :
    t'.failedBeyond s'.index = t.failedBeyond s.index := by
  rw [failedBeyond, failedBeyond, ht.failure_shift, hs.index_shift]
  cases t.failure with
  | none => rfl
  | some failure => exact decide_eq_decide.mpr Nat.add_lt_add_iff_left

/-! ### What is done -/

/-- Events do not matter. -/
theorem note (hs : s.Shifted before input s') (event event' : Trace.Event) :
    (s.note event).Shifted before input (s'.note event') :=
  ⟨hs.input_eq, hs.input_shift, hs.index_le, hs.index_shift, hs.mark_shift, hs.failure_shift⟩

theorem dropFailure (hs : s.Shifted before input s') :
    s.dropFailure.Shifted before input s'.dropFailure :=
  ⟨hs.input_eq, hs.input_shift, hs.index_le, hs.index_shift, hs.mark_shift, rfl⟩

theorem restore (ht : t.Shifted before input t') (hs : s.Shifted before input s') :
    (t.restore s.index).Shifted before input (t'.restore s'.index) :=
  ⟨ht.input_eq, ht.input_shift, hs.index_le, hs.index_shift, ht.mark_shift, ht.failure_shift⟩

theorem raiseMark (ht : t.Shifted before input t') (hs : s.Shifted before input s') :
    (t.raiseMark s.mark).Shifted before input (t'.raiseMark s'.mark) := by
  refine ⟨ht.input_eq, ht.input_shift, ht.index_le, ht.index_shift, ?_, ht.failure_shift⟩
  show max t'.mark s'.mark = _ + max t.mark s.mark
  rw [ht.mark_shift, hs.mark_shift, Nat.add_max_add_left]

theorem marked (hs : s.Shifted before input s') :
    State.Shifted before input { s with mark := s.index } { s' with mark := s'.index } :=
  ⟨hs.input_eq, hs.input_shift, hs.index_le, hs.index_shift, hs.index_shift, hs.failure_shift⟩

theorem moveTo (hs : s.Shifted before input s') {stop : Nat} (hstop : stop ≤ input.length) :
    (s.moveTo stop).Shifted before input (s'.moveTo (a.offset before.length + stop)) := by
  refine ⟨hs.input_eq, hs.input_shift, hstop, rfl, ?_, hs.failure_shift⟩
  show max s'.mark _ = _ + max s.mark stop
  rw [hs.mark_shift, Nat.add_max_add_left]

theorem advance (hs : s.Shifted before input s') : s.advance.Shifted before input s'.advance := by
  rw [State.advance, State.advance, hs.hasNext_eq]
  split
  · rename_i hnext
    have hlt : s.index + 1 ≤ input.length := hs.input_eq ▸ s.hasNext_iff.mp hnext
    have hmoved := hs.moveTo hlt
    rw [← Nat.add_assoc, ← hs.index_shift] at hmoved
    exact hmoved
  · exact hs

theorem record (hs : s.Shifted before input s') (failure : Failure) :
    (s.record failure).Shifted before input
      (s'.record (failure.shift (a.offset before.length))) := by
  refine ⟨hs.input_eq, hs.input_shift, hs.index_le, hs.index_shift, hs.mark_shift, ?_⟩
  show some (Failure.record s'.failure _) = _
  rw [hs.failure_shift, Failure.record_shift]
  rfl

theorem expect (hs : s.Shifted before input s') (names : List String) :
    (s.expect names).Shifted before input (s'.expect names) := by
  have hrecord := hs.record ⟨s.index, addNames [] names, none, s.encountered⟩
  rw [State.expect, State.expect, hs.index_shift, hs.encountered_eq]
  exact hrecord

theorem refuse (hs : s.Shifted before input s') (message : String) :
    (s.refuse message).Shifted before input (s'.refuse message) := by
  have hrecord := hs.record ⟨s.index, [], some message, s.encountered⟩
  rw [State.refuse, State.refuse, hs.index_shift, hs.encountered_eq]
  exact hrecord

theorem absorb (ht : t.Shifted before input t') (hs : s.Shifted before input s') :
    (t.absorb s.failure).Shifted before input (t'.absorb s'.failure) := by
  refine ⟨ht.input_eq, ht.input_shift, ht.index_le, ht.index_shift, ht.mark_shift, ?_⟩
  show Failure.furthest s'.failure t'.failure = (Failure.furthest s.failure t.failure).map _
  rw [hs.failure_shift, ht.failure_shift, Failure.furthest_shift]

theorem afterLook (hs : s.Shifted before input s') (ht : t.Shifted before input t') :
    (s.afterLook t).Shifted before input (s'.afterLook t') :=
  ⟨ht.input_eq, ht.input_shift, hs.index_le, hs.index_shift, hs.mark_shift, hs.failure_shift⟩

end State.Shifted

/-- The same stretch of a text, further on. -/
theorem State.Shifted.slice?_shift {before : List Char} {input : List Alphabet.text.Item}
    {s s' : State .text} (hs : s.Shifted before input s') (start stop : Nat) :
    s'.slice? (before.length + start) (before.length + stop) = s.slice? start stop := by
  have hdrop : s'.input.drop (before.length + start) = s.input.drop start := by
    rw [hs.input_eq, hs.input_shift]
    exact List.drop_length_add_append start
  have hwidth : before.length + stop - (before.length + start) = stop - start :=
    Nat.add_sub_add_left _ _ _
  have hlength : s'.input.length = before.length + s.input.length := hs.length_shift
  rw [State.slice?, State.slice?, hdrop, hwidth, hlength]
  simp only [Nat.add_le_add_iff_left]

/-! ## Outcomes -/

/-- The second of two faults is the first with a text in front. A repetition that stands still is
named by its place, which is as much further on as places over its alphabet are. -/
inductive Fault.Shifted (before : List Char) (stuck : Alphabet → Nat → Prop) : Fault → Fault → Prop where
  | same {g : Fault} (h : ∀ i, g ≠ .emptyRepetition i) : Shifted before stuck g g
  | stuck {b : Alphabet} {i : Nat} (h : stuck b i) :
      Shifted before stuck (.emptyRepetition i) (.emptyRepetition (b.offset before.length + i))

/-- The second of two outcomes is the first with a text in front: it is of the same kind, with the
value moved, and in a shifted state. -/
inductive Outcome.Shifted {α : Type} (before : List Char) (input : List a.Item)
    (stuck : Alphabet → Nat → Prop) (move : α → α) : Outcome a α → Outcome a α → Prop where
  | ok (x : α) {t t' : State a} (h : t.Shifted before input t') :
      Shifted before input stuck move (.ok x t) (.ok (move x) t')
  | fail (severity : Severity) {t t' : State a} (h : t.Shifted before input t') :
      Shifted before input stuck move (.fail severity t) (.fail severity t')
  | fault {g g' : Fault} (h : g.Shifted before stuck g') :
      Shifted before input stuck move (.fault g) (.fault g')

namespace Outcome.Shifted

variable {α β γ : Type} {before : List Char} {input : List a.Item} {stuck : Alphabet → Nat → Prop}
  {move : α → α} {move' : β → β} {move'' : γ → γ}

section

variable {outcome outcome' : Outcome a α} {x : α} {s s' t : State a} {severity : Severity} {g : Fault}

theorem of_ok (h : Shifted before input stuck move (.ok x t) outcome') :
    ∃ t', outcome' = .ok (move x) t' ∧ t.Shifted before input t' := by
  cases h with
  | ok _ ht => exact ⟨_, rfl, ht⟩

theorem of_fail (h : Shifted before input stuck move (.fail severity t) outcome') :
    ∃ t', outcome' = .fail severity t' ∧ t.Shifted before input t' := by
  cases h with
  | fail _ ht => exact ⟨_, rfl, ht⟩

theorem of_fault (h : Shifted before input stuck move (.fault g) outcome') :
    ∃ g', outcome' = .fault g' ∧ g.Shifted before stuck g' := by
  cases h with
  | fault hg => exact ⟨_, rfl, hg⟩

theorem imp (h : outcome.Shifted before input stuck move outcome')
    {stuck' : Alphabet → Nat → Prop} (hstuck : ∀ b i, stuck b i → stuck' b i) :
    outcome.Shifted before input stuck' move outcome' := by
  cases h with
  | ok x ht => exact .ok x ht
  | fail severity ht => exact .fail severity ht
  | fault hg =>
    cases hg with
    | same h => exact .fault (.same h)
    | stuck h => exact .fault (.stuck (hstuck _ _ h))

theorem map {f f' : α → β} (h : outcome.Shifted before input stuck move outcome')
    (hf : ∀ x, f' (move x) = move' (f x)) :
    (outcome.map f).Shifted before input stuck move' (outcome'.map f') := by
  cases h with
  | ok x ht => rw [map_ok, map_ok, hf]; exact .ok (f x) ht
  | fail severity ht => exact .fail severity ht
  | fault hg => exact .fault hg

theorem mapState {f f' : State a → State a} (h : outcome.Shifted before input stuck move outcome')
    (hf : ∀ t t', t.Shifted before input t' → (f t).Shifted before input (f' t')) :
    (outcome.mapState f).Shifted before input stuck move (outcome'.mapState f') := by
  cases h with
  | ok x ht => exact .ok x (hf _ _ ht)
  | fail severity ht => exact .fail severity (hf _ _ ht)
  | fault hg => exact .fault hg

theorem backTo (h : outcome.Shifted before input stuck move outcome')
    (hs : s.Shifted before input s') :
    (outcome.backTo s.index).Shifted before input stuck move (outcome'.backTo s'.index) := by
  cases h with
  | ok x ht => exact .ok x ht
  | fail severity ht => exact .fail severity (ht.restore hs)
  | fault hg => exact .fault hg

end

/-! ## Parsers -/

section

variable {s s' : State a} {p : Parser a α} {q : Parser a β}

theorem item (hs : s.Shifted before input s') {extract : a.Item → Option α} (names : List String)
    (h : ∀ unit, extract (a.shiftItem before.length unit) = (extract unit).map move) :
    (Parser.item extract names s).Shifted before input stuck move (Parser.item extract names s') := by
  have hnext : s'.next?.bind extract = (s.next?.bind extract).map move := by
    rw [hs.next?_shift]
    cases s.next? with
    | none => rfl
    | some unit => exact h unit
  rw [Parser.item, Parser.item, hnext]
  cases s.next?.bind extract with
  | none => exact .fail _ (hs.expect names)
  | some x => exact .ok x hs.advance

theorem atEnd (hs : s.Shifted before input s') :
    (Parser.atEnd s).Shifted before input stuck (fun x => x) (Parser.atEnd s') := by
  rw [Parser.atEnd, Parser.atEnd, hs.hasNext_eq]
  split
  · exact .fail _ (hs.expect ["EOF"])
  · exact .ok () hs

theorem pure {x : α} (hs : s.Shifted before input s') (h : move x = x) :
    (Parser.pure x s).Shifted before input stuck move (Parser.pure x s') := by
  have hok : Shifted before input stuck move (.ok x s) (.ok (move x) s') := .ok x hs
  rw [h] at hok
  exact hok

theorem seqWith {f : α → β → γ} (hs : s.Shifted before input s')
    (hf : ∀ x y, f (move x) (move' y) = move'' (f x y))
    (hp : (p s).Shifted before input stuck move (p s'))
    (hq : ∀ x t t', p s = .ok x t → t.Shifted before input t' →
      (q t).Shifted before input stuck move' (q t')) :
    (Parser.seqWith f p q s).Shifted before input stuck move'' (Parser.seqWith f p q s') := by
  cases h : p s with
  | ok x t =>
    rw [h] at hp
    obtain ⟨t', h', ht⟩ := hp.of_ok
    rw [Parser.seqWith_of_ok h, Parser.seqWith_of_ok h']
    exact ((hq x t t' h ht).map (hf x)).backTo hs
  | fail severity t =>
    rw [h] at hp
    obtain ⟨t', h', ht⟩ := hp.of_fail
    rw [Parser.seqWith_fail h, Parser.seqWith_fail h']
    exact .fail severity (ht.restore hs)
  | fault g =>
    rw [h] at hp
    obtain ⟨g', h', hg⟩ := hp.of_fault
    rw [Parser.seqWith_fault h, Parser.seqWith_fault h']
    exact .fault hg

theorem orElse {q : Parser a α}
    (hp : (p s).Shifted before input stuck move (p s'))
    (hq : ∀ t t', p s = .fail .recoverable t → t.Shifted before input t' →
      (q (t.restore s.index)).Shifted before input stuck move (q (t'.restore s'.index))) :
    (Parser.orElse p q s).Shifted before input stuck move (Parser.orElse p q s') := by
  cases h : p s with
  | ok x t =>
    rw [h] at hp
    obtain ⟨t', h', ht⟩ := hp.of_ok
    rw [Parser.orElse_ok h, Parser.orElse_ok h']
    exact .ok x ht
  | fail severity t =>
    rw [h] at hp
    obtain ⟨t', h', ht⟩ := hp.of_fail
    cases severity with
    | recoverable =>
      rw [Parser.orElse_recoverable h, Parser.orElse_recoverable h']
      exact hq t t' h ht
    | committed =>
      rw [Parser.orElse_committed h, Parser.orElse_committed h']
      exact .fail _ ht
  | fault g =>
    rw [h] at hp
    obtain ⟨g', h', hg⟩ := hp.of_fault
    rw [Parser.orElse_fault h, Parser.orElse_fault h']
    exact .fault hg

/-- Whether anything has been consumed does not depend on where that begins. -/
theorem atomic (hs : s.Shifted before input s')
    (hp : (p { s with mark := s.index }).Shifted before input stuck move
      (p { s' with mark := s'.index })) :
    (Parser.atomic p s).Shifted before input stuck move (Parser.atomic p s') := by
  cases h : p { s with mark := s.index } with
  | ok x t =>
    rw [h] at hp
    obtain ⟨t', h', ht⟩ := hp.of_ok
    rw [Parser.atomic_ok h, Parser.atomic_ok h']
    exact .ok x (ht.raiseMark hs)
  | fail severity t =>
    rw [h] at hp
    obtain ⟨t', h', ht⟩ := hp.of_fail
    cases severity with
    | recoverable =>
      have hconsumed : s'.index < t'.mark ↔ s.index < t.mark := by
        rw [hs.index_shift, ht.mark_shift]
        exact Nat.add_lt_add_iff_left
      by_cases hmark : s.index < t.mark
      · rw [Parser.atomic_consumed h hmark, Parser.atomic_consumed h' (hconsumed.mpr hmark)]
        exact .fail _ ((ht.raiseMark hs).restore hs)
      · rw [Parser.atomic_untouched h hmark, Parser.atomic_untouched h' (mt hconsumed.mp hmark)]
        exact .fail _ (ht.raiseMark hs)
    | committed =>
      rw [Parser.atomic_committed h, Parser.atomic_committed h']
      exact .fail _ (ht.raiseMark hs)
  | fault g =>
    rw [h] at hp
    obtain ⟨g', h', hg⟩ := hp.of_fault
    rw [Parser.atomic_fault h, Parser.atomic_fault h']
    exact .fault hg

theorem peek (hs : s.Shifted before input s') (hp : (p s).Shifted before input stuck move (p s')) :
    (Parser.peek p s).Shifted before input stuck move (Parser.peek p s') :=
  hp.mapState fun _ _ ht =>
    ⟨ht.input_eq, ht.input_shift, hs.index_le, hs.index_shift, hs.mark_shift, ht.failure_shift⟩

theorem notFollowedBy (name : String) (hs : s.Shifted before input s')
    (hp : (p s.dropFailure).Shifted before input stuck move (p s'.dropFailure)) :
    (Parser.notFollowedBy p name s).Shifted before input stuck (fun x => x)
      (Parser.notFollowedBy p name s') := by
  cases h : p s.dropFailure with
  | ok x t =>
    rw [h] at hp
    obtain ⟨t', h', ht⟩ := hp.of_ok
    rw [Parser.notFollowedBy_ok h, Parser.notFollowedBy_ok h']
    exact .fail _ ((hs.afterLook ht).refuse _)
  | fail severity t =>
    rw [h] at hp
    obtain ⟨t', h', ht⟩ := hp.of_fail
    rw [Parser.notFollowedBy_fail h, Parser.notFollowedBy_fail h']
    exact .ok () (hs.afterLook ht)
  | fault g =>
    rw [h] at hp
    obtain ⟨g', h', hg⟩ := hp.of_fault
    rw [Parser.notFollowedBy_fault h, Parser.notFollowedBy_fault h']
    exact .fault hg

/-- The rounds of a repetition are shifted one by one. One that stands still is the only way in which
the repetition itself is at fault. -/
theorem iterate (n : Nat) (hs : s.Shifted before input s')
    (hp : ∀ u ∈ p.rounds n s, ∀ u', u.Shifted before input u' →
      (p u).Shifted before input stuck move (p u'))
    (hstill : ∀ u ∈ p.rounds n s, ∀ x t, p u = .ok x t → t.index = u.index → stuck a u.index) :
    (Parser.iterate p n s).Shifted before input stuck (List.map move) (Parser.iterate p n s') := by
  induction n generalizing s s' with
  | zero => exact .fault (.same (by simp))
  | succ n ih =>
    have hfirst := hp s (.head _) s' hs
    cases h : p s with
    | ok x t =>
      rw [h] at hfirst
      obtain ⟨t', h', ht⟩ := hfirst.of_ok
      have hmoves : t'.index = s'.index ↔ t.index = s.index := by
        rw [ht.index_shift, hs.index_shift]
        exact Nat.add_left_cancel_iff
      by_cases hindex : t.index = s.index
      · rw [Parser.iterate_stuck h hindex, Parser.iterate_stuck h' (hmoves.mpr hindex),
          hs.index_shift]
        exact .fault (.stuck (hstill s (.head _) x t h hindex))
      · have hrounds : p.rounds (n + 1) s = s :: p.rounds n t := by
          simp only [Parser.rounds, h, if_neg hindex]
        rw [hrounds] at hp hstill
        rw [Parser.iterate_moved h hindex, Parser.iterate_moved h' (mt hmoves.mp hindex)]
        exact (ih ht (fun u hu => hp u (.tail _ hu))
          fun u hu => hstill u (.tail _ hu)).map fun _ => rfl
    | fail severity t =>
      rw [h] at hfirst
      obtain ⟨t', h', ht⟩ := hfirst.of_fail
      cases severity with
      | recoverable =>
        rw [Parser.iterate_recoverable h, Parser.iterate_recoverable h']
        exact .ok [] (ht.restore hs)
      | committed =>
        rw [Parser.iterate_committed h, Parser.iterate_committed h']
        exact .fail _ ht
    | fault g =>
      rw [h] at hfirst
      obtain ⟨g', h', hg⟩ := hfirst.of_fault
      rw [Parser.iterate_fault h, Parser.iterate_fault h']
      exact .fault hg

theorem label (name : String) (hs : s.Shifted before input s')
    (hp : (p (s.dropFailure.note (.enter name))).Shifted before input stuck move
      (p (s'.dropFailure.note (.enter name)))) :
    (Parser.label name p s).Shifted before input stuck move (Parser.label name p s') := by
  cases h : p (s.dropFailure.note (.enter name)) with
  | ok x t =>
    rw [h] at hp
    obtain ⟨t', h', ht⟩ := hp.of_ok
    rw [Parser.label_ok h, Parser.label_ok h']
    exact .ok x ((ht.note _ _).absorb hs)
  | fail severity t =>
    rw [h] at hp
    obtain ⟨t', h', ht⟩ := hp.of_fail
    have hbeyond := ht.failedBeyond_eq hs
    by_cases hfar : t.failedBeyond s.index = true
    · rw [Parser.label_beyond h hfar, Parser.label_beyond h' (hbeyond.trans hfar)]
      exact .fail _ ((ht.note _ _).absorb hs)
    · rw [Parser.label_named h hfar, Parser.label_named h' (hbeyond ▸ hfar)]
      exact .fail _ ((((ht.note _ _).dropFailure.restore hs).expect [name]).absorb hs)
  | fault g =>
    rw [h] at hp
    obtain ⟨g', h', hg⟩ := hp.of_fault
    rw [Parser.label_fault h, Parser.label_fault h']
    exact .fault hg

theorem traced (name : String) (render : α → String)
    (hp : (p (s.note (.enter name))).Shifted before input stuck move
      (p (s'.note (.enter name)))) :
    (Parser.traced name render p s).Shifted before input stuck move
      (Parser.traced name render p s') := by
  cases h : p (s.note (.enter name)) with
  | ok x t =>
    rw [h] at hp
    obtain ⟨t', h', ht⟩ := hp.of_ok
    rw [Parser.traced_ok h, Parser.traced_ok h']
    exact .ok x ((ht.note _ _).note _ _)
  | fail severity t =>
    rw [h] at hp
    obtain ⟨t', h', ht⟩ := hp.of_fail
    rw [Parser.traced_fail h, Parser.traced_fail h']
    exact .fail _ (ht.note _ _)
  | fault g =>
    rw [h] at hp
    obtain ⟨g', h', hg⟩ := hp.of_fault
    rw [Parser.traced_fault h, Parser.traced_fault h']
    exact .fault hg

end

/-! ## Texts -/

section

variable {text : List Alphabet.text.Item} {s s' : State .text}

theorem scan {matcher : List Char → Nat → Option (Nat × α)} (name : String)
    (hs : s.Shifted before text s')
    (h : ∀ start ≤ text.length, matcher (before ++ text) (before.length + start) =
      (matcher text start).map fun found => (before.length + found.1, move found.2)) :
    (Parser.scan matcher name s).Shifted before text stuck move (Parser.scan matcher name s') := by
  have hmatch : matcher s'.input s'.index = (matcher s.input s.index).map fun found =>
      (before.length + found.1, move found.2) := by
    rw [hs.input_eq, hs.input_shift, hs.index_shift]
    exact h s.index hs.index_le
  have hindex : s'.index = before.length + s.index := hs.index_shift
  have hlength : s'.input.length = before.length + s.input.length := hs.length_shift
  rw [Parser.scan, Parser.scan, hmatch]
  cases matcher s.input s.index with
  | none => exact .fail _ (hs.expect [name])
  | some found =>
    obtain ⟨stop, x⟩ := found
    simp only [Option.map_some, hindex, hlength, Nat.add_le_add_iff_left]
    split
    · rename_i hbounds
      exact .ok x (hs.moveTo (hs.input_eq ▸ hbounds.2))
    · exact .fault (.same (by simp))

theorem spanned {p : Parser .text α} {f : α → Nat → Nat → List Char → β}
    (hs : s.Shifted before text s')
    (hf : ∀ x start stop text, f (move x) (before.length + start) (before.length + stop) text =
      move' (f x start stop text))
    (hp : (p s).Shifted before text stuck move (p s')) :
    (Parser.spanned f p s).Shifted before text stuck move' (Parser.spanned f p s') := by
  cases h : p s with
  | ok x t =>
    rw [h] at hp
    obtain ⟨t', h', ht⟩ := hp.of_ok
    have hindex : s'.index = before.length + s.index := hs.index_shift
    have hstop : t'.index = before.length + t.index := ht.index_shift
    have hshift : t'.slice? s'.index t'.index = t.slice? s.index t.index := by
      rw [hindex, hstop, ht.slice?_shift]
    cases hslice : t.slice? s.index t.index with
    | some matched =>
      rw [Parser.spanned_ok h hslice, Parser.spanned_ok h' (hshift.trans hslice), hindex, hstop, hf]
      exact .ok _ ht
    | none =>
      rw [Parser.spanned_out h hslice, Parser.spanned_out h' (hshift.trans hslice)]
      exact .fault (.same (by simp))
  | fail severity t =>
    rw [h] at hp
    obtain ⟨t', h', ht⟩ := hp.of_fail
    rw [Parser.spanned_fail h, Parser.spanned_fail h']
    exact .fail severity ht
  | fault g =>
    rw [h] at hp
    obtain ⟨g', h', hg⟩ := hp.of_fault
    rw [Parser.spanned_fault h, Parser.spanned_fault h']
    exact .fault hg

/-- Among the tokens places are the same; what the grammar leaves on record there is moved to the
text, where the tokens are further on. -/
theorem staged {grammar : Parser .tokens α} {lexer : Parser .text (List Token)}
    (hs : s.Shifted before text s')
    (hlexer : (lexer s.dropFailure).Shifted before text stuck
      (List.map (Token.shift before.length)) (lexer s'.dropFailure))
    (hgrammar : ∀ tokens t u', lexer s.dropFailure = .ok tokens t →
      State.Shifted (a := .tokens) before tokens { input := tokens, events := t.events } u' →
      Outcome.Shifted (a := .tokens) before tokens stuck move
        (grammar { input := tokens, events := t.events }) (grammar u')) :
    (Parser.staged grammar lexer s).Shifted before text stuck move
      (Parser.staged grammar lexer s') := by
  cases h : lexer s.dropFailure with
  | ok tokens t =>
    rw [h] at hlexer
    obtain ⟨t', h', ht⟩ := hlexer.of_ok
    have hstages : ∀ u u', State.Shifted (a := .tokens) before tokens u u' →
        (s.afterStages t tokens u).Shifted before text
          (s'.afterStages t' (tokens.map (Token.shift before.length)) u') := by
      intro u u' hu
      have hinput : t'.input = before ++ t.input := by rw [ht.input_eq]; exact ht.input_shift
      have hindex : t'.index = before.length + t.index := ht.index_shift
      have hsame : u'.failure = u.failure := by
        rw [hu.failure_shift]
        exact (congrArg (u.failure.map ·) (funext Failure.shift_zero)).trans Option.map_id'
      have hmoved : (u.failure.map fun f =>
            f.toSource (tokens.map (Token.shift before.length)) t'.input t'.index) =
          (u.failure.map fun f => f.toSource tokens t.input t.index).map
            (Failure.shift before.length) := by
        rw [hinput, hindex, Option.map_map]
        exact congrArg (u.failure.map ·)
          (funext fun f => f.toSource_shift tokens before t.input t.index)
      refine ⟨ht.input_eq, ht.input_shift, ht.index_le, ht.index_shift, ht.mark_shift, ?_⟩
      show Failure.furthest s'.failure (u'.failure.map _) = _
      rw [hsame, hmoved, hs.failure_shift]
      exact Failure.furthest_shift _ _ _
    have hnested := hgrammar tokens t
      { input := tokens.map (Token.shift before.length), events := t'.events } h
      ⟨rfl, rfl, Nat.zero_le _, rfl, rfl, rfl⟩
    cases hg : grammar { input := tokens, events := t.events } with
    | ok x u =>
      rw [hg] at hnested
      obtain ⟨u', hg', hu⟩ := hnested.of_ok
      rw [Parser.staged_ok_ok h hg, Parser.staged_ok_ok h' hg']
      exact .ok x (hstages u u' hu)
    | fail severity u =>
      rw [hg] at hnested
      obtain ⟨u', hg', hu⟩ := hnested.of_fail
      rw [Parser.staged_ok_fail h hg, Parser.staged_ok_fail h' hg']
      exact .fail severity ((hstages u u' hu).restore hs)
    | fault g =>
      rw [hg] at hnested
      obtain ⟨g', hg', hfault⟩ := hnested.of_fault
      rw [Parser.staged_ok_fault h hg, Parser.staged_ok_fault h' hg']
      exact .fault hfault
  | fail severity t =>
    rw [h] at hlexer
    obtain ⟨t', h', ht⟩ := hlexer.of_fail
    rw [Parser.staged_fail h, Parser.staged_fail h']
    exact .fail severity
      ⟨ht.input_eq, ht.input_shift, ht.index_le, ht.index_shift, ht.mark_shift, hs.failure_shift⟩
  | fault g =>
    rw [h] at hlexer
    obtain ⟨g', h', hg⟩ := hlexer.of_fault
    rw [Parser.staged_fault h, Parser.staged_fault h']
    exact .fault hg

theorem cut (kind : String → TokenKind) (hs : s.Shifted before text s') (stop : Nat) :
    (Parser.cut stop kind s).Shifted before text stuck (Token.shift before.length)
      (Parser.cut (before.length + stop) kind s') := by
  have hindex : s'.index = before.length + s.index := hs.index_shift
  have hshift : s'.slice? s'.index (before.length + stop) = s.slice? s.index stop := by
    rw [hindex, hs.slice?_shift]
  cases hslice : s.slice? s.index stop with
  | some chars =>
    have hstop : stop ≤ text.length := hs.input_eq ▸ (Parser.Backtracks.slice?_bounds hslice).2
    rw [Parser.cut_ok hslice, Parser.cut_ok (hshift.trans hslice), hindex]
    exact .ok _ (hs.moveTo hstop)
  | none =>
    rw [Parser.cut_out hslice, Parser.cut_out (hshift.trans hslice)]
    exact .fault (.same (by simp))

/-- A word ends further on by as much, or there is none in both runs. -/
theorem scanWord {words : Parser .text Unit} {moveUnit : Unit → Unit}
    (hs : s.Shifted before text s')
    (hwords : (words s.dropFailure).Shifted before text stuck moveUnit (words s'.dropFailure)) :
    (∃ stop t t', Parser.scanWord words s = .ok (stop, t) ∧
      Parser.scanWord words s' = .ok (stop.map (before.length + ·), t') ∧
        t.Shifted before text t') ∨
    ∃ g g', Parser.scanWord words s = .error g ∧ Parser.scanWord words s' = .error g' ∧
      g.Shifted before stuck g' := by
  cases h : words s.dropFailure with
  | ok x t =>
    rw [h] at hwords
    obtain ⟨t', h', ht⟩ := hwords.of_ok
    have hstop : (if s'.index < t'.index then some t'.index else none) =
        (if s.index < t.index then some t.index else none).map (before.length + ·) := by
      have hindex : s'.index = before.length + s.index := hs.index_shift
      have hend : t'.index = before.length + t.index := ht.index_shift
      rw [hindex, hend]
      simp only [Nat.add_lt_add_iff_left]
      split <;> rfl
    have hlook := Parser.scanWord_ok h'
    rw [hstop] at hlook
    exact .inl ⟨_, _, _, Parser.scanWord_ok h, hlook, hs.afterLook ht⟩
  | fail severity t =>
    rw [h] at hwords
    obtain ⟨t', h', ht⟩ := hwords.of_fail
    exact .inl ⟨none, _, _, Parser.scanWord_fail h, Parser.scanWord_fail h', hs.afterLook ht⟩
  | fault g =>
    rw [h] at hwords
    obtain ⟨g', h', hg⟩ := hwords.of_fault
    exact .inr ⟨g, g', Parser.scanWord_fault h, Parser.scanWord_fault h', hg⟩

/-- The same operator and the same word compete. -/
theorem terminal (lexicon : Lexicon) {words : Parser .text Unit} {moveUnit : Unit → Unit}
    (hs : s.Shifted before text s')
    (hout : ¬ (s.input.length < s.index ∧ lexicon.operators ≠ []))
    (hout' : ¬ (s'.input.length < s'.index ∧ lexicon.operators ≠ []))
    (hwords : (words s.dropFailure).Shifted before text stuck moveUnit (words s'.dropFailure)) :
    (Parser.terminal lexicon words s).Shifted before text stuck (Token.shift before.length)
      (Parser.terminal lexicon words s') := by
  rcases scanWord hs hwords with ⟨stop, t, t', h, h', ht⟩ | ⟨g, g', h, h', hg⟩
  · have hindex : t'.index = before.length + t.index := ht.index_shift
    have hrest : t'.input.drop t'.index = t.input.drop t.index := by
      rw [hindex, ht.input_eq, ht.input_shift]
      exact List.drop_length_add_append t.index
    simp only [Parser.terminal, if_neg hout, if_neg hout', h, h', hrest]
    cases Lexicon.longestOperator? lexicon.operators (t.input.drop t.index) with
    | none =>
      cases stop with
      | none => exact .fail _ (ht.expect lexicon.operators)
      | some n => exact cut lexicon.wordKind ht n
    | some operator =>
      have hend : t'.index + operator.length = before.length + (t.index + operator.length) := by
        rw [hindex, Nat.add_assoc]
      cases stop with
      | none => simp only [Option.map_none, hend]; exact cut _ ht _
      | some n =>
        simp only [Option.map_some, hend, Nat.add_lt_add_iff_left]
        split
        · exact cut lexicon.wordKind ht n
        · exact cut _ ht _
  · rw [Parser.terminal_fault hout h, Parser.terminal_fault hout' h']
    exact .fault hg

end

end Outcome.Shifted

/-! ## Grammars -/

namespace Grammar

open Application

variable {S : Scope} {bindings : Bindings S} {before : List Char} {depth : Nat} {α : Type}
  {moves : (x : S.Ref) → Nat → S.Value x → S.Value x}

/-- From shifted states a grammar ends in shifted outcomes. -/
def Shifts (bindings : Bindings S) (before : List Char) (depth : Nat) (move : Nat → α → α)
    (g : Grammar S a α) : Prop :=
  ∀ input (s s' : State a), s.Shifted before input s' →
    (g.run (bindings.resolver depth) s).Shifted before input
      (StandsStill bindings ⟨depth, g, s⟩) (move before.length)
      (g.run (bindings.resolver depth) s')

/-- Shiftable grammars shift if those that references stand for do. The induction is on how the
grammar is put together. -/
theorem Shiftable.shifts {move : Nat → α → α} {g : Grammar S a α} (hg : g.Shiftable moves move)
    (hresolve : ∀ x, Shifts bindings before depth (moves x) (.ref x)) :
    Shifts bindings before depth move g := by
  induction hg with
  | item names h =>
    exact fun input s s' hs => .item hs names (h before.length)
  | atEnd => exact fun input s s' hs => .atEnd hs
  | pure h => exact fun input s s' hs => .pure hs (h before.length)
  | refuse move message => exact fun input s s' hs => .fail _ (hs.refuse message)
  | silent move severity => exact fun input s s' hs => .fail severity hs
  | scan name h =>
    exact fun text s s' hs => .scan name hs fun start hstart => h before text start hstart
  | map h hp ih =>
    intro input s s' hs
    rw [run, Parser.map_apply, Parser.map_apply]
    refine .map ?_ (h before.length)
    exact (ih input s s' hs).imp fun _ _ => .of_inner (.head _)
  | seqWith h hp hq ihp ihq =>
    intro input s s' hs
    refine .seqWith hs (h before.length) ?_ fun x t t' ht hshift => ?_
    · exact (ihp input s s' hs).imp fun _ _ => .of_inner (.head _)
    · exact (ihq input t t' hshift).imp fun _ _ =>
        .of_inner (mem_inner_seqWith.mpr (.inr ⟨x, t, ht, rfl⟩))
  | orElse hp hq ihp ihq =>
    intro input s s' hs
    refine .orElse ?_ fun t t' ht hshift => ?_
    · exact (ihp input s s' hs).imp fun _ _ => .of_inner (.head _)
    · exact (ihq input _ _ (hshift.restore hs)).imp fun _ _ =>
        .of_inner (mem_inner_orElse.mpr (.inr ⟨t, ht, rfl⟩))
  | atomic hp ih =>
    intro input s s' hs
    exact .atomic hs ((ih input _ _ hs.marked).imp fun _ _ => .of_inner (.head _))
  | peek hp ih =>
    intro input s s' hs
    exact .peek hs ((ih input s s' hs).imp fun _ _ => .of_inner (.head _))
  | notFollowedBy name hp ih =>
    intro input s s' hs
    exact .notFollowedBy name hs ((ih input _ _ hs.dropFailure).imp fun _ _ => .of_inner (.head _))
  | many hp ih =>
    intro input s s' hs
    have hrounds : s'.input.length - s'.index + 1 = s.input.length - s.index + 1 := by
      rw [hs.length_shift, hs.index_shift, Nat.add_sub_add_left]
    rw [run, Parser.many_apply, Parser.many_apply, hrounds]
    refine .backTo (.iterate _ hs (fun u hu u' hshift => ?_) fun u hu x t ht hstill => ?_) hs
    · exact (ih input u u' hshift).imp fun _ _ => .of_inner (mem_inner_many.mpr ⟨u, hu, rfl⟩)
    · exact ⟨.refl, hu, ht, hstill, rfl⟩
  | label name hp ih =>
    intro input s s' hs
    exact .label name hs ((ih input _ _ (hs.dropFailure.note _ _)).imp fun _ _ =>
      .of_inner (.head _))
  | traced name render hp ih =>
    intro input s s' hs
    exact .traced name render ((ih input _ _ (hs.note _ _)).imp fun _ _ => .of_inner (.head _))
  | spanned h hp ih =>
    intro text s s' hs
    exact .spanned hs (h before.length) ((ih text s s' hs).imp fun _ _ => .of_inner (.head _))
  | ref x => exact hresolve x
  | staged hgrammar hlexer ihgrammar ihlexer =>
    intro text s s' hs
    refine .staged hs ?_ fun tokens t u' ht hshift => ?_
    · exact (ihlexer text _ _ hs.dropFailure).imp fun _ _ => .of_inner (.head _)
    · exact (ihgrammar tokens _ _ hshift).imp fun _ _ =>
        .of_inner (mem_inner_staged.mpr (.inr ⟨tokens, t, ht, rfl⟩))
  | terminal lexicon hwords ih =>
    intro text s s' hs
    have hout : s'.input.length < s'.index ↔ s.input.length < s.index := by
      rw [hs.length_shift, hs.index_shift]
      exact Nat.add_lt_add_iff_left
    have hwithin : ¬ (s.input.length < s.index ∧ lexicon.operators ≠ []) :=
      fun h => Nat.not_lt.mpr (hs.input_eq ▸ hs.index_le) h.1
    have hwithin' : ¬ (s'.input.length < s'.index ∧ lexicon.operators ≠ []) :=
      fun h => hwithin ⟨hout.mp h.1, h.2⟩
    exact .terminal lexicon hs hwithin hwithin' ((ih text _ _ hs.dropFailure).imp fun _ _ =>
      .of_inner (mem_inner_terminal.mpr ⟨hwithin, rfl⟩))

end Grammar

/-- References shift if the grammars they stand for are shiftable. The induction is on how deep they
may lead. -/
theorem Bindings.resolver_shifts {S : Scope} {bindings : Bindings S} {before : List Char}
    {moves : (x : S.Ref) → Nat → S.Value x → S.Value x}
    (hbindings : ∀ x g, bindings.lookup? x = some g → g.Shiftable moves (moves x)) (depth : Nat)
    (x : S.Ref) : Grammar.Shifts bindings before depth (moves x) (.ref x) := by
  induction depth generalizing x with
  | zero =>
    intro input s s' hs
    simp only [Grammar.run, resolver]
    cases bindings.lookup? x with
    | none => exact .fault (.same (by simp))
    | some g => exact .fault (.same (by simp))
  | succ depth ih =>
    intro input s s' hs
    simp only [Grammar.run, resolver]
    cases hx : bindings.lookup? x with
    | none => exact .fault (.same (by simp))
    | some g =>
      exact ((hbindings x g hx).shifts ih input s s' hs).imp fun _ _ =>
        .of_inner (Application.mem_inner_ref.mpr ⟨depth, g, rfl, hx, rfl⟩)

/-- **A run does not look behind the place where it begins.** Let a grammar and those that references
stand for be shiftable. Then a run over a text and a run over the same text with another one in front,
which begins where that one ends, come to the same end, the second as much further on: with a shifted
value, or with a failure of the same kind, at a place and with a mark and a failure on record that are
further on by the length of the text in front. If a repetition stands still, the second run is at fault
at the place of the first, which is as much further on if it is a place in the text. -/
theorem Rules.parser_shifted {S : Scope} {α : Type} (rules : Rules S)
    {moves : (x : S.Ref) → Nat → S.Value x → S.Value x}
    (hbindings : ∀ x g, rules.bindings.lookup? x = some g → g.Shiftable moves (moves x))
    {g : Grammar S .text α} {move : Nat → α → α} (hg : g.Shiftable moves move)
    (before text : List Char) :
    Outcome.Shifted (a := .text) before text
      (Application.StandsStill rules.bindings ⟨rules.depth, g, { input := text }⟩)
      (move before.length)
      (rules.parser g { input := text })
      (rules.parser g { input := before ++ text, index := before.length, mark := before.length }) ∧
    ∀ b i, Application.StandsStill rules.bindings ⟨rules.depth, g, { input := text }⟩ b i →
      rules.parser g { input := text } = .fault (.emptyRepetition i) ∧
      rules.parser g { input := before ++ text, index := before.length, mark := before.length } =
        .fault (.emptyRepetition (b.offset before.length + i)) := by
  have hshifts := hg.shifts (Bindings.resolver_shifts hbindings rules.depth) text { input := text }
    { input := before ++ text, index := before.length, mark := before.length }
    ⟨rfl, rfl, Nat.zero_le _, rfl, rfl, rfl⟩
  refine ⟨hshifts, fun b i hstill => ?_⟩
  have hfault : rules.parser g { input := text } = .fault (.emptyRepetition i) := hstill.outcome_eq
  refine ⟨hfault, ?_⟩
  rw [show g.run _ { input := text } = _ from hfault] at hshifts
  obtain ⟨f', hfault', hshifted⟩ := hshifts.of_fault
  cases hshifted with
  | same h => exact absurd rfl (h i)
  | stuck hstill' =>
    obtain rfl := hstill.unique hstill'
    exact hfault'

section

open Grammar (Shiftable)

/-- A parenthesis and a name, read off a text. -/
def openedName : Grammar nestingScope .text (Token × String) :=
  .overTokens (.seq (parentheses.token ["("]) (.ref ())) parentheses.tokenizer .blanks

/-- A letter, and another one any number of times, where none also counts. -/
def lingering : Grammar nestingScope .text (Char × List (Option Char)) :=
  .seq (.char 'a') (.many (.optional (.char 'b')))

/-- Names are the same wherever they stand. -/
def unmoved : (x : nestingScope.Ref) → Nat → nestingScope.Value x → nestingScope.Value x :=
  fun _ _ name => name

theorem nestedName_shiftable : nestedName.Shiftable unmoved fun _ name => name :=
  .orElse (.tokenOf _ _)
    (((Shiftable.registryToken parentheses ["("]).skipThen (.ref ())).thenSkip
      (.registryToken parentheses [")"]))

/-- After two other characters the parenthesis is at index 2; and the repetition that stands still
does so at index 3. -/
theorem openedName_shifted :
    (∀ x g, nestingRules.bindings.lookup? x = some g → g.Shiftable unmoved (unmoved x)) ∧
    openedName.Shiftable unmoved (fun n => Prod.map (Token.shift n) id) ∧
    lingering.Shiftable unmoved (fun _ => Prod.map id (List.map (Option.map id))) ∧
    Application.StandsStill nestingRules.bindings
      ⟨nestingRules.depth, lingering, { input := ['a', 'c'] }⟩ .text 1 ∧
    (∃ t t', nestingRules.parser openedName { input := ['(', 'a'] } =
        .ok (⟨0, 1, .reserved "(", "("⟩, "a") t ∧
      nestingRules.parser openedName { input := ['x', ' ', '(', 'a'], index := 2, mark := 2 } =
        .ok (⟨2, 3, .reserved "(", "("⟩, "a") t' ∧
      t.Shifted ['x', ' '] ['(', 'a'] t') ∧
    nestingRules.parser lingering { input := ['x', ' ', 'a', 'c'], index := 2, mark := 2 } =
      .fault (.emptyRepetition 3) := by
  have hbindings : ∀ x g, nestingRules.bindings.lookup? x = some g →
      g.Shiftable unmoved (unmoved x) := by
    intro x g hg
    refine Bindings.of_lookup? (P := fun g => g.Shiftable unmoved fun _ name => name) ?_ hg
    intro binding hbinding
    rw [nestingRules, List.mem_singleton] at hbinding
    rw [hbinding]
    exact nestedName_shiftable
  have hname := @Shiftable.ref nestingScope unmoved ()
  have hopened : openedName.Shiftable unmoved (fun n => Prod.map (Token.shift n) id) :=
    .overTokens (.seq (.registryToken _ _) hname) (.terminal _ (.pattern _ _)) (.pattern _ _)
  have hchar (c : Char) : (Grammar.char c).Shiftable unmoved fun _ => id := .character _ _
  have hlingering : lingering.Shiftable unmoved fun _ => Prod.map id (List.map (Option.map id)) :=
    .seq (hchar 'a') (.many (hchar 'b').optional)
  have hstill : Application.StandsStill nestingRules.bindings
      ⟨nestingRules.depth, lingering, { input := ['a', 'c'] }⟩ .text 1 :=
    ⟨.single (Application.mem_inner_seqWith.mpr (.inr ⟨'a', _, rfl, rfl⟩)), .head _, rfl, rfl, rfl⟩
  have hvalue : (nestingRules.parser openedName { input := ['(', 'a'] }).value? =
      some ((⟨0, 1, .reserved "(", "("⟩, "a"), 2) := by
    decide +kernel
  obtain ⟨t, ht, -⟩ := Outcome.exists_of_value? hvalue
  obtain ⟨hshifted, -⟩ :=
    nestingRules.parser_shifted hbindings hopened ['x', ' '] ['(', 'a']
  rw [ht] at hshifted
  obtain ⟨t', ht', hstate⟩ := hshifted.of_ok
  obtain ⟨-, hfault⟩ := nestingRules.parser_shifted hbindings hlingering ['x', ' '] ['a', 'c']
  exact ⟨hbindings, hopened, hlingering, hstill, ⟨t, t', ht, ht', hstate⟩, (hfault _ 1 hstill).2⟩

end

end Descent
