import Descent.Text.Blank
import Mathlib.Computability.Language

/-!
How words and numbers are written.

The ways to write them are languages over classes of characters, with `+` for either of two, `*` for
one after the other and `∗` for any number. They say which texts are meant and nothing about how one
is looked for; which stretch of a text is the longest of a language says `Longest`.
-/

open scoped Computability

namespace Descent.Spelling

/-! ## Classes of characters -/

def IsDigit (c : Char) : Prop := '0' ≤ c ∧ c ≤ '9'

def IsPositiveDigit (c : Char) : Prop := '1' ≤ c ∧ c ≤ '9'

def IsOctalDigit (c : Char) : Prop := '0' ≤ c ∧ c ≤ '7'

def IsHexDigit (c : Char) : Prop := IsDigit c ∨ ('a' ≤ c ∧ c ≤ 'f') ∨ ('A' ≤ c ∧ c ≤ 'F')

def IsLetter (c : Char) : Prop := ('a' ≤ c ∧ c ≤ 'z') ∨ ('A' ≤ c ∧ c ≤ 'Z')

def IsExponentMark (c : Char) : Prop := c = 'e' ∨ c = 'E'

def IsSign (c : Char) : Prop := c = '+' ∨ c = '-'

def IsHexMark (c : Char) : Prop := c = 'x' ∨ c = 'X'

instance : DecidablePred IsDigit := fun _ => inferInstanceAs (Decidable (_ ∧ _))

instance : DecidablePred IsPositiveDigit := fun _ => inferInstanceAs (Decidable (_ ∧ _))

instance : DecidablePred IsOctalDigit := fun _ => inferInstanceAs (Decidable (_ ∧ _))

instance : DecidablePred IsHexDigit := fun _ => inferInstanceAs (Decidable (_ ∨ _))

/-! ## Languages -/

/-- One character of a class. -/
def one (inClass : Char → Prop) : Language Char := {text | ∃ c, inClass c ∧ text = [c]}

/-- One or more characters of a class. -/
def run (inClass : Char → Prop) : Language Char := one inClass * (one inClass)∗

def blanks : Language Char := run (Text.isBlank · = true)

/-- A letter or an underscore, then letters, digits and underscores. -/
def name : Language Char :=
  one (fun c => IsLetter c ∨ c = '_') * (one fun c => IsLetter c ∨ IsDigit c ∨ c = '_')∗

def digits : Language Char := run IsDigit

/-- A point and digits. -/
def fraction : Language Char := one (· = '.') * digits

/-- Digits with or without a fraction, or a fraction alone. -/
def decimal : Language Char := digits * (1 + fraction) + fraction

/-- A decimal number, a mark, perhaps a sign, and digits. -/
def scientific : Language Char := decimal * (one IsExponentMark * ((1 + one IsSign) * digits))

def hexNumeral : Language Char := one (· = '0') * (one IsHexMark * run IsHexDigit)

def octalNumeral : Language Char := one (· = '0') * (one IsOctalDigit)∗

def decimalNumeral : Language Char := one IsPositiveDigit * (one IsDigit)∗

/-! ## Which texts belong to them -/

variable {inClass : Char → Prop} {L : Language Char} {text : List Char} {c : Char}

theorem mem_one_mul : text ∈ one inClass * L ↔ ∃ c rest, inClass c ∧ rest ∈ L ∧ text = c :: rest := by
  rw [Language.mem_mul]
  constructor
  · rintro ⟨_, ⟨c, hc, rfl⟩, rest, hrest, rfl⟩
    exact ⟨c, rest, hc, hrest, rfl⟩
  · rintro ⟨c, rest, hc, hrest, rfl⟩
    exact ⟨[c], ⟨c, hc, rfl⟩, rest, hrest, rfl⟩

theorem cons_mem_one_mul : c :: text ∈ one inClass * L ↔ inClass c ∧ text ∈ L := by
  rw [mem_one_mul]
  constructor
  · rintro ⟨_, _, hc, hrest, ⟨⟩⟩
    exact ⟨hc, hrest⟩
  · rintro ⟨hc, hrest⟩
    exact ⟨c, text, hc, hrest, rfl⟩

theorem nil_not_mem_one_mul : [] ∉ one inClass * L := by
  rw [mem_one_mul]
  rintro ⟨c, rest, -, -, h⟩
  cases h

theorem mem_star : text ∈ (one inClass)∗ ↔ ∀ c ∈ text, inClass c := by
  rw [Language.mem_kstar]
  constructor
  · rintro ⟨parts, rfl, hparts⟩ c hc
    obtain ⟨part, hpart, hc⟩ := List.mem_flatten.mp hc
    obtain ⟨d, hd, rfl⟩ := hparts part hpart
    rw [List.mem_singleton.mp hc]
    exact hd
  · intro h
    refine ⟨text.map fun c => [c], ?_, ?_⟩
    · rw [← List.flatMap_def, List.flatMap_singleton']
    · intro part hpart
      obtain ⟨c, hc, rfl⟩ := List.mem_map.mp hpart
      exact ⟨c, h c hc, rfl⟩

theorem mem_run : text ∈ run inClass ↔ text ≠ [] ∧ ∀ c ∈ text, inClass c := by
  cases text with
  | nil => exact iff_of_false nil_not_mem_one_mul fun h => h.1 rfl
  | cons c rest => simp [run, cons_mem_one_mul, mem_star]

theorem run_mul : run inClass * L = one inClass * ((one inClass)∗ * L) :=
  mul_assoc _ _ _

theorem nil_not_mem_run : [] ∉ run inClass :=
  nil_not_mem_one_mul

theorem nil_not_mem_decimal : [] ∉ decimal := by
  rintro (h | h)
  · rw [digits, run_mul] at h
    exact nil_not_mem_one_mul h
  · exact nil_not_mem_one_mul h

theorem nil_not_mem_scientific : [] ∉ scientific := by
  intro h
  obtain ⟨u, hu, v, -, huv⟩ := Language.mem_mul.mp h
  rw [(List.append_eq_nil_iff.mp huv).1] at hu
  exact nil_not_mem_decimal hu

theorem mem_decimal (h : text ∈ decimal) (hc : c ∈ text) : IsDigit c ∨ c = '.' := by
  have hdigits {text : List Char} (h : text ∈ digits) (hc : c ∈ text) : IsDigit c :=
    (mem_run.mp h).2 c hc
  have hfraction {text : List Char} (h : text ∈ fraction) (hc : c ∈ text) :
      IsDigit c ∨ c = '.' := by
    obtain ⟨point, rest, rfl, hrest, rfl⟩ := mem_one_mul.mp h
    rcases List.mem_cons.mp hc with hc | hc
    · exact .inr hc
    · exact .inl (hdigits hrest hc)
  rcases h with h | h
  · obtain ⟨u, hu, v, hv, rfl⟩ := Language.mem_mul.mp h
    rcases List.mem_append.mp hc with hc | hc
    · exact .inl (hdigits hu hc)
    · rcases hv with rfl | hv
      · cases hc
      · exact hfraction hv hc
  · exact hfraction h hc

/-! ## The longest stretch -/

/-- A text of a language stands at the front of a text, and no longer one does. -/
structure Longest (L : Language Char) (text found : List Char) : Prop where
  mem : found ∈ L
  front : found <+: text
  longest : ∀ other ∈ L, other <+: text → other.length ≤ found.length

theorem Longest.self (h : text ∈ L) : Longest L text text :=
  ⟨h, List.prefix_rfl, fun _ _ hfront => hfront.length_le⟩

theorem Longest.unique {found found' : List Char} (h : Longest L text found)
    (h' : Longest L text found') : found = found' := by
  have hlength := Nat.le_antisymm (h'.longest _ h.mem h.front) (h.longest _ h'.mem h'.front)
  exact (List.prefix_of_prefix_length_le h.front h'.front hlength.le).eq_of_length hlength

end Descent.Spelling
