import Descent.Proofs.Furthest
import Descent.State

/-!
What is left of failures that are recorded one after another.

Of all of them only those at the furthest index count: there the kept one lies, it has their names in
the order in which they came and each once, the first message there is among them, and it encountered
what the first of them did (`Failure.Retained`). One more failure keeps this up
(`Failure.Retained.record`), so it holds however many there are, and it leaves no choice: nothing
else is kept (`State.recordAll_retained`). That failures may be put away and taken up again, and
recorded again, without a trace is what `Furthest` says of three of them.
-/

namespace Descent

/-! ## Names, each once -/

/-- Names that are added to names without repetition are left out where they are there already. -/
theorem addName_eraseDups (names : List String) (name : String) :
    addName names.eraseDups name = (names ++ [name]).eraseDups := by
  rw [List.eraseDups_append]
  by_cases h : name ∈ names
  · have hnothing : [name].removeAll names = [] := by simp [List.removeAll, h]
    rw [addName_of_mem (List.mem_eraseDups.mpr h), hnothing, List.eraseDups_nil, List.append_nil]
  · have hname : [name].removeAll names = [name] := by simp [List.removeAll, h]
    rw [addName_of_not_mem (mt List.mem_eraseDups.mp h), hname]
    rfl

theorem addNames_eraseDups (names more : List String) :
    addNames names.eraseDups more = (names ++ more).eraseDups := by
  induction more generalizing names with
  | nil => rw [addNames_nil, List.append_nil]
  | cons name more ih =>
    rw [addNames_cons, addName_eraseDups, ih, List.append_assoc, List.singleton_append]

theorem eraseDups_of_nodup {names : List String} (h : names.Nodup) : names.eraseDups = names := by
  induction names with
  | nil => rfl
  | cons name names ih =>
    obtain ⟨hname, hnames⟩ := List.nodup_cons.mp h
    have hkept : names.filter (fun other => !other == name) = names := by
      apply List.filter_eq_self.mpr
      intro other hother
      have hne : other ≠ name := fun heq => hname (heq ▸ hother)
      simp [hne]
    rw [List.eraseDups_cons, hkept, ih hnames]

namespace Failure

/-! ## The failures at the furthest index -/

/-- Those of several failures that lie at an index, in order. -/
def lyingAt (index : Nat) (failures : List Failure) : List Failure :=
  failures.filter fun failure => failure.position = index

/-- A failure is what several failures leave of themselves: it lies at the furthest of their indexes,
with the names of those that lie there, the first message among those and what the first of those
encountered. -/
structure Retained (failures : List Failure) (kept : Failure) : Prop where
  furthest : (failures.map position).max? = some kept.position
  expected : kept.expected =
    ((lyingAt kept.position failures).flatMap Failure.expected).eraseDups
  message : kept.message = (lyingAt kept.position failures).findSome? Failure.message
  encountered : (lyingAt kept.position failures).head?.map Failure.encountered =
    some kept.encountered

theorem lyingAt_append (index : Nat) (failures more : List Failure) :
    lyingAt index (failures ++ more) = lyingAt index failures ++ lyingAt index more :=
  List.filter_append _ _

theorem lyingAt_singleton_of_ne {index : Nat} {failure : Failure} (h : failure.position ≠ index) :
    lyingAt index [failure] = [] := by
  simp [lyingAt, h]

theorem lyingAt_singleton (failure : Failure) : lyingAt failure.position [failure] = [failure] := by
  simp [lyingAt]

namespace Retained

variable {failures : List Failure} {kept new : Failure}

theorem exists_position_eq (h : Retained failures kept) :
    ∃ failure ∈ failures, failure.position = kept.position :=
  List.mem_map.mp (List.max?_mem h.furthest)

theorem position_le (h : Retained failures kept) :
    ∀ failure ∈ failures, failure.position ≤ kept.position := by
  intro failure hfailure
  exact (List.max?_eq_some_iff.mp h.furthest).2 _ (List.mem_map_of_mem hfailure)

/-- Several failures leave one thing only. -/
theorem unique (h : Retained failures kept) (h' : Retained failures new) : kept = new := by
  have hposition : kept.position = new.position := Option.some.inj (h.furthest.symm.trans h'.furthest)
  have hexpected := h'.expected
  have hmessage := h'.message
  have hencountered := h'.encountered
  rw [← hposition] at hexpected hmessage hencountered
  cases kept
  cases new
  simp only [mk.injEq]
  exact ⟨hposition, h.expected.trans hexpected.symm, h.message.trans hmessage.symm,
    Option.some.inj (h.encountered.symm.trans hencountered)⟩

/-- One failure leaves itself. -/
theorem single (h : new.expected.Nodup) : Retained [new] new where
  furthest := rfl
  expected := by rw [lyingAt_singleton, List.flatMap_singleton, eraseDups_of_nodup h]
  message := by rw [lyingAt_singleton, List.findSome?_singleton]
  encountered := by rw [lyingAt_singleton]; rfl

/-- What is kept at the furthest index stays furthest if the new one is not ahead of it. -/
theorem furthest_append (h : Retained failures kept) (hnew : new.position ≤ kept.position) :
    ((failures ++ [new]).map position).max? = some kept.position := by
  rw [List.max?_eq_some_iff]
  constructor
  · obtain ⟨failure, hfailure, hposition⟩ := h.exists_position_eq
    exact List.mem_map.mpr ⟨failure, List.mem_append_left _ hfailure, hposition⟩
  · intro index hindex
    obtain ⟨failure, hfailure, rfl⟩ := List.mem_map.mp hindex
    rcases List.mem_append.mp hfailure with hfailure | hfailure
    · exact h.position_le failure hfailure
    · rw [List.mem_singleton.mp hfailure]
      exact hnew

/-- A failure behind the kept one leaves no trace. -/
theorem append_behind (h : Retained failures kept) (hnew : new.position < kept.position) :
    Retained (failures ++ [new]) kept := by
  have hsame : lyingAt kept.position (failures ++ [new]) = lyingAt kept.position failures := by
    rw [lyingAt_append, lyingAt_singleton_of_ne (Nat.ne_of_lt hnew), List.append_nil]
  constructor
  · exact h.furthest_append (Nat.le_of_lt hnew)
  · rw [hsame]; exact h.expected
  · rw [hsame]; exact h.message
  · rw [hsame]; exact h.encountered

/-- A failure at the index of the kept one adds its names and, if there is none yet, its message. -/
theorem append_merge (h : Retained failures kept) (hnew : new.position = kept.position) :
    Retained (failures ++ [new]) (kept.merge new) := by
  have hadded : lyingAt kept.position (failures ++ [new]) =
      lyingAt kept.position failures ++ [new] := by
    rw [lyingAt_append, ← hnew, lyingAt_singleton]
  have hexpected : (kept.merge new).expected = addNames kept.expected new.expected := rfl
  have hmessage : (kept.merge new).message = kept.message.or new.message := by
    cases h : kept.message <;> simp [merge, h]
  constructor
  · rw [position_merge]
    exact h.furthest_append (Nat.le_of_eq hnew)
  · rw [position_merge, hadded, hexpected, h.expected, addNames_eraseDups, List.flatMap_append,
      List.flatMap_singleton]
  · rw [position_merge, hadded, hmessage, h.message, List.findSome?_append,
      List.findSome?_singleton]
  · rw [position_merge, hadded, List.head?_append, Option.map_or, h.encountered]
    rfl

/-- A failure ahead of the kept one takes its place: of those before it none lies where it does. -/
theorem append_ahead (h : Retained failures kept) (hnew : kept.position < new.position)
    (hnames : new.expected.Nodup) : Retained (failures ++ [new]) new := by
  have hnone : lyingAt new.position failures = [] := by
    apply List.filter_eq_nil_iff.mpr
    intro failure hfailure
    have hle := h.position_le failure hfailure
    simp only [decide_eq_true_eq]
    omega
  have halone : lyingAt new.position (failures ++ [new]) = lyingAt new.position [new] := by
    rw [lyingAt_append, hnone, List.nil_append]
  have hsingle := single hnames
  constructor
  · rw [List.max?_eq_some_iff]
    constructor
    · exact List.mem_map_of_mem (List.mem_append_right _ (List.mem_singleton_self _))
    · intro index hindex
      obtain ⟨failure, hfailure, rfl⟩ := List.mem_map.mp hindex
      rcases List.mem_append.mp hfailure with hfailure | hfailure
      · exact Nat.le_trans (h.position_le failure hfailure) (Nat.le_of_lt hnew)
      · exact Nat.le_of_eq (congrArg position (List.mem_singleton.mp hfailure))
  · rw [halone]; exact hsingle.expected
  · rw [halone]; exact hsingle.message
  · rw [halone]; exact hsingle.encountered

/-- One more failure: the cases follow where it lies, seen from the kept one. -/
theorem record (h : Retained failures kept) (hnames : new.expected.Nodup) :
    Retained (failures ++ [new]) (Failure.record (some kept) new) := by
  rcases Nat.lt_trichotomy new.position kept.position with hlt | heq | hgt
  · rw [record_of_lt hlt]; exact h.append_behind hlt
  · rw [record_of_eq heq]; exact h.append_merge heq
  · rw [record_of_gt hgt]; exact h.append_ahead hgt hnames

/-- A name is kept if a failure at the furthest index has it. -/
theorem mem_expected (h : Retained failures kept) (name : String) :
    name ∈ kept.expected ↔
      ∃ failure ∈ failures, failure.position = kept.position ∧ name ∈ failure.expected := by
  rw [h.expected, List.mem_eraseDups, List.mem_flatMap]
  simp only [lyingAt, List.mem_filter, decide_eq_true_eq, and_assoc]

theorem position_le_of_perm {reordered : List Failure} (h : Retained failures kept)
    (h' : Retained reordered new) (hperm : failures.Perm reordered) :
    kept.position ≤ new.position := by
  obtain ⟨failure, hfailure, hposition⟩ := h.exists_position_eq
  rw [← hposition]
  exact h'.position_le failure (hperm.mem_iff.mp hfailure)

theorem position_eq_of_perm {reordered : List Failure} (h : Retained failures kept)
    (h' : Retained reordered new) (hperm : failures.Perm reordered) :
    kept.position = new.position :=
  Nat.le_antisymm (h.position_le_of_perm h' hperm) (h'.position_le_of_perm h hperm.symm)

end Retained

end Failure

namespace State

variable {a : Alphabet}

/-! ## Failures recorded one after another -/

/-- Records failures one after another. -/
def recordAll (s : State a) (failures : List Failure) : State a :=
  failures.foldl record s

/-- The names of the failure on record. -/
def expectedNames (s : State a) : List String :=
  match s.failure with
  | some failure => failure.expected
  | none => []

@[simp] theorem recordAll_nil (s : State a) : s.recordAll [] = s := rfl

theorem recordAll_cons (s : State a) (failure : Failure) (failures : List Failure) :
    s.recordAll (failure :: failures) = (s.record failure).recordAll failures := rfl

theorem recordAll_append (s : State a) (failures more : List Failure) :
    s.recordAll (failures ++ more) = (s.recordAll failures).recordAll more :=
  List.foldl_append

/-- What earlier failures have left and what is left since are what both together leave. The
induction is on the failures that are still to come. -/
theorem retained_recordAll {s : State a} {earlier failures : List Failure} {kept : Failure}
    (hs : s.failure = some kept) (hkept : Failure.Retained earlier kept)
    (hnames : ∀ failure ∈ failures, failure.expected.Nodup) :
    ∃ last, (s.recordAll failures).failure = some last ∧
      Failure.Retained (earlier ++ failures) last := by
  induction failures generalizing s earlier kept with
  | nil => exact ⟨kept, hs, by rwa [List.append_nil]⟩
  | cons failure failures ih =>
    obtain ⟨hname, hnames⟩ := List.forall_mem_cons.mp hnames
    have hstep : (s.record failure).failure = some (Failure.record (some kept) failure) := by
      rw [← hs]; rfl
    obtain ⟨last, hlast, hretained⟩ := ih hstep (hkept.record hname) hnames
    rw [List.append_assoc, List.singleton_append] at hretained
    exact ⟨last, hlast, hretained⟩

/-- Where nothing was on record, one failure or more leave what they have to. -/
theorem exists_retained {s : State a} (hs : s.failure = none) {failures : List Failure}
    (hnames : ∀ failure ∈ failures, failure.expected.Nodup) (hsome : failures ≠ []) :
    ∃ kept, (s.recordAll failures).failure = some kept ∧ Failure.Retained failures kept := by
  cases failures with
  | nil => exact absurd rfl hsome
  | cons failure failures =>
    obtain ⟨hname, hrest⟩ := List.forall_mem_cons.mp hnames
    have hfirst : (s.record failure).failure = some failure := by
      simp only [State.record, hs, Failure.record]
    exact retained_recordAll hfirst (.single hname) hrest

theorem failure_recordAll_iff {s : State a} (hs : s.failure = none) {failures : List Failure}
    (hnames : ∀ failure ∈ failures, failure.expected.Nodup) (kept : Failure) :
    (s.recordAll failures).failure = some kept ↔ Failure.Retained failures kept := by
  by_cases hsome : failures = []
  · subst hsome
    rw [recordAll_nil, hs]
    exact ⟨nofun, fun h => absurd h.furthest nofun⟩
  · obtain ⟨last, hlast, hretained⟩ := exists_retained hs hnames hsome
    rw [hlast]
    constructor
    · rintro ⟨⟩
      exact hretained
    · intro h
      exact congrArg some (hretained.unique h)

/-! ## Put away, again, in another order -/

/-- It does not matter whether earlier failures are put in front before or after one is recorded. -/
theorem absorb_record (s : State a) (earlier : Option Failure) (failure : Failure) :
    (s.record failure).absorb earlier = (s.absorb earlier).record failure := by
  have hassoc := Failure.furthest_assoc earlier s.failure (some failure)
  simp only [Failure.furthest_some] at hassoc
  simp only [absorb, record, Failure.furthest_some, hassoc]

theorem absorb_recordAll (s : State a) (earlier : Option Failure) (failures : List Failure) :
    (s.recordAll failures).absorb earlier = (s.absorb earlier).recordAll failures := by
  induction failures generalizing s with
  | nil => rfl
  | cons failure failures ih => rw [recordAll_cons, ih, absorb_record, recordAll_cons]

theorem dropFailure_absorb (s : State a) : s.dropFailure.absorb s.failure = s := rfl

/-- Failures may be taken away and put back in front of what was recorded since. -/
theorem recordAll_putAway (s : State a) (failures : List Failure) :
    (s.dropFailure.recordAll failures).absorb s.failure = s.recordAll failures := by
  rw [absorb_recordAll, dropFailure_absorb]

/-- A failure that has been recorded at any time is not recorded again. -/
theorem recordAll_again (s : State a) {failures : List Failure} {failure : Failure}
    (h : failure ∈ failures) : (s.recordAll failures).record failure = s.recordAll failures := by
  obtain ⟨before, after, rfl⟩ := List.append_of_mem h
  rw [recordAll_append, recordAll_cons, ← recordAll_putAway]
  simp only [State.record, absorb]
  congr 1
  exact Failure.furthest_again _ (some failure) _

/-- In another order failures leave their names and their index as they are. -/
theorem recordAll_perm {s : State a} (hs : s.failure = none) {failures reordered : List Failure}
    (hnames : ∀ failure ∈ failures, failure.expected.Nodup) (hperm : reordered.Perm failures) :
    (s.recordAll reordered).failure.map Failure.position =
        (s.recordAll failures).failure.map Failure.position ∧
      ∀ name, name ∈ (s.recordAll reordered).expectedNames ↔
        name ∈ (s.recordAll failures).expectedNames := by
  have hnames' : ∀ failure ∈ reordered, failure.expected.Nodup :=
    fun failure hfailure => hnames failure (hperm.mem_iff.mp hfailure)
  by_cases hsome : failures = []
  · subst hsome
    rw [List.perm_nil.mp hperm]
    exact ⟨rfl, fun _ => Iff.rfl⟩
  have hsome' : reordered ≠ [] := fun h => hsome (List.nil_perm.mp (h ▸ hperm))
  obtain ⟨kept, hkept, hretained⟩ := exists_retained hs hnames hsome
  obtain ⟨kept', hkept', hretained'⟩ := exists_retained hs hnames' hsome'
  have hposition : kept'.position = kept.position := hretained'.position_eq_of_perm hretained hperm
  constructor
  · rw [hkept, hkept', Option.map_some, Option.map_some, hposition]
  · intro name
    simp only [expectedNames, hkept, hkept']
    rw [hretained.mem_expected, hretained'.mem_expected, hposition]
    simp only [hperm.mem_iff]

/-! ## Several names at once -/

/-- A name expected after others is expected together with them. -/
theorem expect_append (s : State a) (names : List String) (name : String) :
    (s.expect names).expect [name] = s.expect (names ++ [name]) := by
  have hrecord := Failure.record_record s.failure ⟨s.index, addNames [] names, none, s.encountered⟩
    ⟨s.index, [name], none, s.encountered⟩
  have hmerge : Failure.record (some ⟨s.index, addNames [] names, none, s.encountered⟩)
      ⟨s.index, [name], none, s.encountered⟩ =
        ⟨s.index, addNames [] (names ++ [name]), none, s.encountered⟩ := by
    rw [addNames_append]
    exact Failure.record_of_eq rfl
  rw [hmerge] at hrecord
  exact congrArg (fun failure => { s with failure := some failure }) hrecord

/-- Names expected one after another are expected together. -/
theorem foldl_expect (s : State a) (names more : List String) :
    more.foldl (fun t name => t.expect [name]) (s.expect names) = s.expect (names ++ more) := by
  induction more generalizing names with
  | nil => rw [List.foldl_nil, List.append_nil]
  | cons name more ih =>
    rw [List.foldl_cons, expect_append, ih, List.append_assoc, List.singleton_append]

theorem foldl_expect_of_ne_nil (s : State a) {names : List String} (h : names ≠ []) :
    names.foldl (fun t name => t.expect [name]) s = s.expect names := by
  cases names with
  | nil => exact absurd rfl h
  | cons name more => exact foldl_expect s [name] more

/-! ## All of it -/

/-- **Of failures recorded one after another the furthest are kept.** Where nothing was on record
they leave exactly the failure that unites those at the furthest index, in their order. Those recorded
first may be taken away and put back in front later, none of them is recorded again, and their order
decides neither where the kept one lies nor which names it has. And names may be expected one after
another or all at once. -/
theorem recordAll_retained (s : State a) (hs : s.failure = none) (failures : List Failure)
    (hnames : ∀ failure ∈ failures, failure.expected.Nodup) :
    (∀ kept, (s.recordAll failures).failure = some kept ↔ Failure.Retained failures kept) ∧
    (failures ≠ [] → ∃ kept, (s.recordAll failures).failure = some kept) ∧
    (∀ later, ((s.recordAll failures).dropFailure.recordAll later).absorb
        (s.recordAll failures).failure = s.recordAll (failures ++ later)) ∧
    (∀ failure ∈ failures, (s.recordAll failures).record failure = s.recordAll failures) ∧
    (∀ reordered, reordered.Perm failures →
      (s.recordAll reordered).failure.map Failure.position =
          (s.recordAll failures).failure.map Failure.position ∧
        ∀ name, name ∈ (s.recordAll reordered).expectedNames ↔
          name ∈ (s.recordAll failures).expectedNames) ∧
    ∀ (t : State a) (names : List String), names ≠ [] →
      t.expect names = names.foldl (fun u name => u.expect [name]) t := by
  refine ⟨failure_recordAll_iff hs hnames, ?_, ?_, ?_, ?_, ?_⟩
  · intro hsome
    obtain ⟨kept, hkept, -⟩ := exists_retained hs hnames hsome
    exact ⟨kept, hkept⟩
  · intro later
    rw [recordAll_putAway, recordAll_append]
  · exact fun failure hfailure => recordAll_again s hfailure
  · exact fun reordered hperm => recordAll_perm hs hnames hperm
  · exact fun t names hsome => (foldl_expect_of_ne_nil t hsome).symm

/-! ## Failures at three indexes -/

/-- Failures behind, at and again at the furthest index, and one behind it once more. -/
def mixedFailures : List Failure :=
  [⟨1, ["digit"], none, .unit "x"⟩, ⟨3, ["+", "-"], none, .unit "y"⟩,
    ⟨2, [], some "unexpected name", .unit "z"⟩, ⟨3, [], some "no more", .endOfInput⟩,
    ⟨3, ["-", "digit"], some "too late", .unit "y"⟩, ⟨0, ["name"], none, .unit "w"⟩]

/-- The two signs and the digit remain, with the first message at their index. -/
theorem mixedFailures_retained :
    (∀ failure ∈ mixedFailures, failure.expected.Nodup) ∧
    Failure.Retained mixedFailures ⟨3, ["+", "-", "digit"], some "no more", .unit "y"⟩ ∧
    ∀ failure ∈ mixedFailures,
      ((({ input := [] } : State .text).recordAll mixedFailures).record failure).failure =
        some ⟨3, ["+", "-", "digit"], some "no more", .unit "y"⟩ := by
  have hnames : ∀ failure ∈ mixedFailures, failure.expected.Nodup := by decide
  have hkept : (({ input := [] } : State .text).recordAll mixedFailures).failure =
      some ⟨3, ["+", "-", "digit"], some "no more", .unit "y"⟩ := by decide
  obtain ⟨hretained, -, -, hagain, -⟩ :=
    recordAll_retained ({ input := [] } : State .text) rfl mixedFailures hnames
  refine ⟨hnames, (hretained _).mp hkept, ?_⟩
  intro failure hfailure
  exact (congrArg State.failure (hagain failure hfailure)).trans hkept

end State

end Descent
