import Descent.Failure

/-!
Keeping the furthest failure is associative, and nothing is kept twice.

So it does not matter how a run is cut into pieces: what a piece records may be kept apart and put
together with what was recorded before it later (`Failure.furthest_assoc`). And a piece may be run
again: what it recorded the first time takes in what it records the second time, whatever was
recorded in between (`Failure.furthest_again`). At one index this rests on uniting lists of names
without repetition (`addNames_assoc`, `addNames_of_subset`), where the first lists come first.
-/

namespace Descent

/-! ## Lists of names -/

theorem addNames_nil (names : List String) : addNames names [] = names := rfl

theorem addNames_cons (names more : List String) (name : String) :
    addNames names (name :: more) = addNames (addName names name) more := rfl

theorem addNames_append (names more rest : List String) :
    addNames names (more ++ rest) = addNames (addNames names more) rest :=
  List.foldl_append

theorem mem_addName {names : List String} {name n : String} :
    n ∈ addName names name ↔ n ∈ names ∨ n = name := by
  by_cases h : name ∈ names
  · rw [addName_of_mem h]
    constructor
    · exact .inl
    · rintro (hn | rfl)
      · exact hn
      · exact h
  · rw [addName_of_not_mem h, List.mem_append, List.mem_singleton]

theorem mem_addNames {names more : List String} {n : String} :
    n ∈ addNames names more ↔ n ∈ names ∨ n ∈ more := by
  induction more generalizing names with
  | nil => simp [addNames_nil]
  | cons name more ih => rw [addNames_cons, ih, mem_addName, List.mem_cons, or_assoc]

/-- A name added to the second list is a name added to both. -/
theorem addNames_addName (names more : List String) (name : String) :
    addNames names (addName more name) = addName (addNames names more) name := by
  by_cases h : name ∈ more
  · rw [addName_of_mem h, addName_of_mem (mem_addNames.mpr (.inr h))]
  · rw [addName_of_not_mem h, addNames_append, addNames_cons, addNames_nil]

theorem addNames_assoc (names more rest : List String) :
    addNames (addNames names more) rest = addNames names (addNames more rest) := by
  induction rest generalizing more with
  | nil => rfl
  | cons name rest ih => rw [addNames_cons, addNames_cons, ← ih, addNames_addName]

theorem addNames_of_subset {names more : List String} (h : more ⊆ names) :
    addNames names more = names := by
  induction more with
  | nil => rfl
  | cons name more ih =>
    rw [addNames_cons, addName_of_mem (h (.head _)), ih fun _ hn => h (.tail _ hn)]

namespace Failure

/-! ## Failures at one index -/

theorem position_merge (first second : Failure) :
    (first.merge second).position = first.position := rfl

theorem merge_assoc (first second third : Failure) :
    (first.merge second).merge third = first.merge (second.merge third) := by
  have hmessage : ((first.message <|> second.message) <|> third.message) =
      (first.message <|> (second.message <|> third.message)) := by
    cases first.message <;> rfl
  unfold merge
  rw [addNames_assoc, hmessage]

theorem merge_self (failure : Failure) : failure.merge failure = failure := by
  have hmessage : (failure.message <|> failure.message) = failure.message := by
    cases failure.message <;> rfl
  unfold merge
  rw [addNames_of_subset (List.Subset.refl _), hmessage]

theorem merge_merge_left (first second : Failure) :
    (first.merge second).merge first = first.merge second := by
  have hnames : first.expected ⊆ addNames first.expected second.expected :=
    fun _ hn => mem_addNames.mpr (.inl hn)
  have hmessage : ((first.message <|> second.message) <|> first.message) =
      (first.message <|> second.message) := by
    cases first.message with
    | none => cases second.message <;> rfl
    | some message => rfl
  unfold merge
  rw [addNames_of_subset hnames, hmessage]

/-! ## Failures at any index -/

/-- What is kept lies at the further of the two. -/
theorem position_record (kept : Option Failure) (new : Failure) :
    (record kept new).position = max ((kept.map position).getD 0) new.position := by
  cases kept with
  | none => exact (Nat.zero_max _).symm
  | some kept =>
    rw [Option.map_some, Option.getD_some]
    rcases Nat.lt_trichotomy new.position kept.position with h | h | h
    · rw [record_of_lt h, Nat.max_eq_left (Nat.le_of_lt h)]
    · rw [record_of_eq h, position_merge, h, Nat.max_self]
    · rw [record_of_gt h, Nat.max_eq_right (Nat.le_of_lt h)]

/-- What was kept is never ahead of what is kept next. -/
theorem le_position_record (kept new : Failure) :
    kept.position ≤ (record (some kept) new).position := by
  rw [position_record]
  exact Nat.le_max_left _ _

section

variable {kept : Option Failure} {new : Failure}
  (hkept : ∀ failure, kept = some failure → failure.position ≤ new.position)

include hkept

/-- A failure that nothing is ahead of stays where it is. -/
theorem position_record_of_le : (record kept new).position = new.position := by
  cases kept with
  | none => rfl
  | some kept =>
    rcases Nat.lt_or_eq_of_le (hkept kept rfl) with h | h
    · rw [record_of_gt h]
    · rw [record_of_eq h.symm, position_merge, h]

/-- A failure that nothing is ahead of keeps its names. -/
theorem expected_subset_record_of_le : new.expected ⊆ (record kept new).expected := by
  cases kept with
  | none => exact List.Subset.refl _
  | some kept =>
    rcases Nat.lt_or_eq_of_le (hkept kept rfl) with h | h
    · rw [record_of_gt h]; exact List.Subset.refl _
    · rw [record_of_eq h.symm]; exact fun _ hn => mem_addNames.mpr (.inr hn)

end

/-- Three failures recorded one after another are the last two recorded before the first is looked
at. The cases follow where the second lies, seen from the first. -/
theorem record_record (first : Option Failure) (second third : Failure) :
    record (some (record first second)) third = record first (record (some second) third) := by
  cases first with
  | none => rfl
  | some first =>
    rcases Nat.lt_trichotomy second.position first.position with h | h | h
    · rw [record_of_lt h]
      rcases Nat.lt_trichotomy third.position second.position with h' | h' | h'
      · rw [record_of_lt h', record_of_lt h, record_of_lt (Nat.lt_trans h' h)]
      · have hmerged : (second.merge third).position < first.position := h
        rw [record_of_eq h', record_of_lt hmerged, record_of_lt (h' ▸ h)]
      · rw [record_of_gt h']
    · rw [record_of_eq h]
      rcases Nat.lt_trichotomy third.position second.position with h' | h' | h'
      · rw [record_of_lt h', record_of_eq h, record_of_lt (by rw [position_merge, ← h]; exact h')]
      · rw [record_of_eq h', record_of_eq (by rw [position_merge, ← h]; exact h'), merge_assoc,
          record_of_eq (by rw [position_merge]; exact h)]
      · rw [record_of_gt h', record_of_gt (by rw [position_merge, ← h]; exact h'),
          record_of_gt (by rw [← h]; exact h')]
    · have hkept := le_position_record second third
      rw [record_of_gt h, record_of_gt (Nat.lt_of_lt_of_le h hkept)]

theorem furthest_assoc (first second third : Option Failure) :
    furthest (furthest first second) third = furthest first (furthest second third) := by
  cases third with
  | none => rfl
  | some third =>
    cases second with
    | none => rw [furthest_none, none_furthest]
    | some second => rw [furthest_some, furthest_some, furthest_some, furthest_some, record_record]

/-! ## The same failure again -/

theorem record_self (failure : Failure) : record (some failure) failure = failure := by
  rw [record_of_eq rfl, merge_self]

/-- A failure that has been recorded is not recorded again. -/
theorem record_record_left (first second : Failure) :
    record (some (record (some first) second)) first = record (some first) second := by
  rcases Nat.lt_trichotomy second.position first.position with h | h | h
  · rw [record_of_lt h, record_self]
  · rw [record_of_eq h, record_of_eq (by rw [position_merge]), merge_merge_left]
  · rw [record_of_gt h, record_of_lt h]

theorem furthest_furthest_left (first second : Option Failure) :
    furthest (furthest first second) first = furthest first second := by
  cases first with
  | none => rfl
  | some first =>
    cases second with
    | none => rw [furthest_none, furthest_some, record_self]
    | some second => rw [furthest_some, furthest_some, record_record_left]

/-- What was recorded at any time before is not recorded again. -/
theorem furthest_again (before first since : Option Failure) :
    furthest (furthest (furthest before first) since) first =
      furthest (furthest before first) since := by
  rw [furthest_assoc before, furthest_assoc before, furthest_furthest_left]

end Failure

end Descent
