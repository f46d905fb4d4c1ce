import Descent.Proofs.Pattern.Extent

/-!
What a blank cannot change.

A reading of the front of a text is `Firm` if a blank brings it to an end: it does not look past one,
text added behind does not make it fail, and what it took would be read the same if it were all there
is. Names and integers are read firmly, since none of their characters is a blank.
-/

namespace Descent

/-- A text that is over, or goes on with a blank. -/
def Text.Breaks (text : List Char) : Prop :=
  ∀ c ∈ text.head?, Text.isBlank c = true

/-- A reading of the front of a text that a blank brings to an end. -/
structure Firm {β : Type} (size : β → Nat) (read : List Char → Option β) : Prop where
  /-- It takes no more than is there. -/
  fits : ∀ {text x}, read text = some x → size x ≤ text.length
  /-- It does not look past a blank. -/
  ends : ∀ (text : List Char) {rest}, Text.Breaks rest → read (text ++ rest) = read text
  /-- It does not fail because there is more. -/
  grows : ∀ {text x} (rest : List Char), read text = some x → (read (text ++ rest)).isSome = true
  /-- What it took is read the same if it is all there is. -/
  keeps : ∀ {text x}, read text = some x → read (text.take (size x)) = some x

namespace Firm

variable {β γ : Type} {size : β → Nat} {read : List Char → Option β}

/-- What fails with more to come fails without it. -/
theorem none_of_append (h : Firm size read) {text rest : List Char}
    (hnone : read (text ++ rest) = none) : read text = none := by
  cases hread : read text with
  | none => rfl
  | some x =>
    have hsome := h.grows rest hread
    rw [hnone] at hsome
    cases hsome

theorem none_take (h : Firm size read) {text : List Char} (hnone : read text = none) (n : Nat) :
    read (text.take n) = none := by
  rw [← List.take_append_drop n text] at hnone
  exact h.none_of_append hnone

end Firm

namespace Pattern

variable {inClass : Char → Bool} {p : Pattern}

/-- The characters of a class are visible ones of ASCII. -/
def Visible (inClass : Char → Bool) : Prop :=
  ∀ c, inClass c = true → 0x20 < c.toNat ∧ c.toNat < 0x7F

theorem not_blank_of_visible {c : Char} (h : 0x20 < c.toNat ∧ c.toNat < 0x7F) :
    Text.isBlank c = false := by
  simp only [Text.isBlank, Text.inRanges, Text.blanks, List.any_cons, List.any_nil, Bool.or_false,
    Bool.or_eq_false_iff, Bool.and_eq_false_iff, decide_eq_false_iff_not]
  omega

theorem not_mem_of_blank (hclass : Visible inClass) {c : Char} (hc : Text.isBlank c = true) :
    ¬ inClass c = true := by
  intro hmem
  rw [not_blank_of_visible (hclass c hmem)] at hc
  cases hc

theorem visible_char (d : Char) (h : 0x20 < d.toNat ∧ d.toNat < 0x7F) : Visible (· == d) := by
  intro c hc
  rw [beq_iff_eq.mp hc]
  exact h

theorem visible_between (low high : Char) (hlow : 0x20 < low.toNat) (hhigh : high.toNat < 0x7F) :
    Visible fun c => decide (low ≤ c) && decide (c ≤ high) := by
  intro c hc
  have hbounds := (Bool.and_eq_true _ _).mp hc
  have hle : low.toNat ≤ c.toNat := of_decide_eq_true hbounds.1
  have hge : c.toNat ≤ high.toNat := of_decide_eq_true hbounds.2
  omega

theorem Visible.or {inClass' : Char → Bool} (h : Visible inClass) (h' : Visible inClass') :
    Visible fun c => inClass c || inClass' c :=
  fun c hc => ((Bool.or_eq_true _ _).mp hc).elim (h c) (h' c)

theorem visible_isDigit : Visible Char.isDigit :=
  visible_between '0' '9' (by decide) (by decide)

theorem visible_isAlpha : Visible Char.isAlpha := by
  have hupper : Visible Char.isUpper := by
    intro c hc
    obtain ⟨hle, hge⟩ := of_decide_eq_true hc
    exact visible_between 'A' 'Z' (by decide) (by decide) c
      (Bool.and_eq_true_iff.mpr ⟨decide_eq_true hle, decide_eq_true hge⟩)
  exact hupper.or (visible_between 'a' 'z' (by decide) (by decide))

theorem visible_isHexDigit : Visible isHexDigit :=
  (visible_isDigit.or (visible_between 'a' 'f' (by decide) (by decide))).or
    (visible_between 'A' 'F' (by decide) (by decide))

/-! ## Runs of characters -/

/-- A break stops a run of visible characters. -/
theorem takeWhile_append_breaks (hclass : Visible inClass) (text : List Char) {rest : List Char}
    (hrest : Text.Breaks rest) : (text ++ rest).takeWhile inClass = text.takeWhile inClass := by
  have hstop : rest.takeWhile inClass = [] := by
    cases rest with
    | nil => rfl
    | cons c rest => exact List.takeWhile_cons_of_neg (not_mem_of_blank hclass (hrest c rfl))
  rw [List.takeWhile_append, hstop, List.append_nil]
  split
  · rename_i hlength
    exact ((List.takeWhile_prefix inClass).eq_of_length hlength).symm
  · rfl

/-- A run is no shorter if more follows. -/
theorem takeWhile_length_le_append (inClass : Char → Bool) (text rest : List Char) :
    (text.takeWhile inClass).length ≤ ((text ++ rest).takeWhile inClass).length := by
  rw [List.takeWhile_append]
  split
  · rename_i hlength
    rw [hlength, List.length_append]
    omega
  · exact Nat.le_refl _

/-- A run taken by itself is the same run. -/
theorem takeWhile_take (text : List Char) :
    (text.take (text.takeWhile inClass).length).takeWhile inClass = text.takeWhile inClass := by
  have hrun : ∀ c ∈ text.takeWhile inClass, inClass c = true :=
    List.all_eq_true.mp List.all_takeWhile
  rw [← List.prefix_iff_eq_take.mp (List.takeWhile_prefix inClass)]
  have hself : (text.takeWhile inClass ++ []).takeWhile inClass =
      text.takeWhile inClass ++ [].takeWhile inClass := List.takeWhile_append_of_pos hrun
  rwa [List.append_nil, List.takeWhile_nil, List.append_nil] at hself

theorem firm_many (hclass : Visible inClass) : Firm id (many inClass) where
  fits h := fits_many inClass _ _ h
  ends text _ hrest := by rw [many, many, takeWhile_append_breaks hclass text hrest]
  grows _ _ := rfl
  keeps := by
    rintro text n ⟨⟩
    rw [many, id, takeWhile_take]

theorem firm_oneOrMore (hclass : Visible inClass) : Firm id (oneOrMore inClass) where
  fits h := fits_oneOrMore inClass _ _ h
  ends text _ hrest := by rw [oneOrMore, oneOrMore, takeWhile_append_breaks hclass text hrest]
  grows := by
    intro text n rest h
    have hpos := advances_oneOrMore inClass text n h
    simp only [oneOrMore] at h ⊢
    split at h
    · have hle := takeWhile_length_le_append inClass text rest
      cases h
      rw [if_pos (Nat.lt_of_lt_of_le hpos hle)]
      rfl
    · cases h
  keeps := by
    intro text n h
    simp only [oneOrMore] at h
    split at h
    · rename_i hpos
      cases h
      simp only [oneOrMore, id, takeWhile_take, if_pos hpos]
    · cases h

/-- A character of a class, then whatever is read firmly. -/
theorem firm_headThen (hclass : Visible inClass) (hp : Firm id p) :
    Firm id (headThen inClass p) where
  fits h := fits_headThen inClass (fun _ _ h => hp.fits h) _ _ h
  ends text rest hrest := by
    cases text with
    | nil =>
      cases rest with
      | nil => rfl
      | cons c rest => exact if_neg (not_mem_of_blank hclass (hrest c rfl))
    | cons c text => simp only [List.cons_append, headThen, hp.ends text hrest]
  grows := by
    intro text n rest h
    cases text with
    | nil => cases h
    | cons c text =>
      simp only [List.cons_append, headThen] at h ⊢
      split at h
      · rename_i hc
        obtain ⟨k, hk, rfl⟩ := Option.map_eq_some_iff.mp h
        rw [if_pos hc, Option.isSome_map, hp.grows rest hk]
      · cases h
  keeps := by
    intro text n h
    cases text with
    | nil => cases h
    | cons c text =>
      simp only [headThen] at h
      split at h
      · rename_i hc
        obtain ⟨k, hk, rfl⟩ := Option.map_eq_some_iff.mp h
        have hkept : p (text.take k) = some k := hp.keeps hk
        rw [id, Nat.add_comm, List.take_succ_cons, headThen, if_pos hc, hkept, Option.map_some,
          Nat.add_comm]
      · cases h

/-- Nothing is read firmly where nothing is read. -/
theorem firm_none : Firm id (fun _ => none : Pattern) where
  fits := nofun
  ends _ _ _ := rfl
  grows := nofun
  keeps := nofun

/-! ## Names and integers -/

theorem firm_identifier : Firm id identifier :=
  firm_headThen (visible_isAlpha.or (visible_char '_' (by decide)))
    (firm_many ((visible_isAlpha.or visible_isDigit).or (visible_char '_' (by decide))))

theorem firm_hexInteger : Firm id hexInteger :=
  firm_headThen (visible_char '0' (by decide))
    (firm_headThen ((visible_char 'x' (by decide)).or (visible_char 'X' (by decide)))
      (firm_oneOrMore visible_isHexDigit))

theorem firm_octalInteger : Firm id octalInteger :=
  firm_headThen (visible_char '0' (by decide))
    (firm_many (visible_between '0' '7' (by decide) (by decide)))

theorem firm_decimalInteger : Firm id decimalInteger :=
  firm_headThen (fun c hc => visible_isDigit c ((Bool.and_eq_true _ _).mp hc).1)
    (firm_many visible_isDigit)

end Pattern

end Descent
