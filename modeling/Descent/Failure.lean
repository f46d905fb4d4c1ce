/-!
What went wrong and where. A `Failure` sits at an index of the input, names what would have been
accepted there and what was found. Of all failures on the way through a grammar only the furthest is
kept; failures at one index are united, in the order in which they came.

`furthest_none` and `furthest_some` are the two equations everything about keeping the furthest
failure rests on.
-/

namespace Descent

/-- What stood where a failure happened. -/
inductive Encountered where
  | unit (text : String)
  | endOfInput
deriving Repr, DecidableEq

/-- The words for what stood there. -/
def Encountered.describe : Encountered → String
  | .unit text => text
  | .endOfInput => "EOF"

/-- A failure at an index of the input. -/
structure Failure where
  /-- The index of the unit that was refused. -/
  position : Nat
  /-- The names of what would have been accepted, in the order in which they were tried. -/
  expected : List String := []
  /-- A message for a failure that has no names to offer. -/
  message : Option String := none
  encountered : Encountered
deriving Repr, DecidableEq

/-! ## Lists of names -/

/-- Adds a name at the end unless it is there. -/
def addName (names : List String) (name : String) : List String :=
  if names.contains name then names else names ++ [name]

/-- Adds names one after another. -/
def addNames (names more : List String) : List String :=
  more.foldl addName names

/-- Names in a sentence: `a`, `a or b`, `a, b or c`. -/
def nameList : List String → String
  | [] => ""
  | [only] => only
  | names => ", ".intercalate names.dropLast ++ " or " ++ names.getLastD ""

theorem addName_of_mem {names : List String} {name : String} (h : name ∈ names) :
    addName names name = names := by
  simp [addName, h]

theorem addName_of_not_mem {names : List String} {name : String} (h : name ∉ names) :
    addName names name = names ++ [name] := by
  simp [addName, h]

theorem nodup_addName {names : List String} (name : String) (h : names.Nodup) :
    (addName names name).Nodup := by
  by_cases hn : name ∈ names
  · rwa [addName_of_mem hn]
  · rw [addName_of_not_mem hn, List.nodup_append]
    refine ⟨h, by simp, ?_⟩
    intro a ha b hb
    rw [List.mem_singleton] at hb
    rintro rfl
    exact hn (hb ▸ ha)

theorem nodup_addNames {names : List String} (more : List String) (h : names.Nodup) :
    (addNames names more).Nodup := by
  induction more generalizing names with
  | nil => exact h
  | cons name more ih => exact ih (nodup_addName name h)

namespace Failure

/-! ## One failure -/

/-- The failure names one more thing that would have been accepted. -/
def expecting (failure : Failure) (name : String) : Failure :=
  { failure with expected := addName failure.expected name }

/-- The failure says this if it has no names to offer. -/
def saying (failure : Failure) (message : String) : Failure :=
  { failure with message := some message }

/-- The same failure seen from another input, where it sits elsewhere and something else stands. -/
def relocate (failure : Failure) (position : Nat) (encountered : Encountered) : Failure :=
  { failure with position, encountered }

/-- Unites two failures at one index: the names of both, the first message there is, and what the
first one encountered. -/
def merge (first second : Failure) : Failure :=
  { first with
    expected := addNames first.expected second.expected
    message := first.message <|> second.message }

/-- The failure in words. Names come before a message. -/
def render (failure : Failure) : String :=
  if failure.expected.isEmpty then
    match failure.message with
    | some message => message
    | none => "unexpected " ++ failure.encountered.describe ++ "."
  else
    nameList failure.expected ++ " expected, " ++ failure.encountered.describe ++ " encountered."

/-! ## The furthest of several -/

/-- Keeps the further of the failure kept so far and a new one; two at one index are united. -/
def record : Option Failure → Failure → Failure
  | none, new => new
  | some kept, new =>
    if new.position < kept.position then kept
    else if new.position = kept.position then kept.merge new
    else new

/-- The furthest of what was kept earlier and what was kept since. -/
def furthest (earlier since : Option Failure) : Option Failure :=
  match since with
  | none => earlier
  | some new => some (record earlier new)

theorem furthest_none (earlier : Option Failure) : furthest earlier none = earlier := rfl

theorem furthest_some (earlier : Option Failure) (new : Failure) :
    furthest earlier (some new) = some (record earlier new) := rfl

theorem none_furthest (since : Option Failure) : furthest none since = since := by
  cases since <;> rfl

theorem record_of_lt {kept new : Failure} (h : new.position < kept.position) :
    record (some kept) new = kept := by
  simp [record, h]

theorem record_of_eq {kept new : Failure} (h : new.position = kept.position) :
    record (some kept) new = kept.merge new := by
  simp [record, h]

theorem record_of_gt {kept new : Failure} (h : kept.position < new.position) :
    record (some kept) new = new := by
  simp [record, Nat.lt_asymm h, (Nat.ne_of_lt h).symm]

/-- What is kept is never behind what came. -/
theorem position_le_record (kept : Option Failure) (new : Failure) :
    new.position ≤ (record kept new).position := by
  cases kept with
  | none => exact Nat.le_refl _
  | some kept =>
    rcases Nat.lt_trichotomy new.position kept.position with h | h | h
    · rw [record_of_lt h]; exact Nat.le_of_lt h
    · rw [record_of_eq h]; exact Nat.le_of_eq h
    · exact Nat.le_of_eq (congrArg Failure.position (record_of_gt h).symm)

end Failure

end Descent
