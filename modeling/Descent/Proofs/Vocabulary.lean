import Descent.Lexicon.Tokenize

/-!
How the lexemes of a vocabulary keep out of one another's way.

No two of them have the same normal form (`Lexicon.normalize_pairwise`). So a word is spelled like
one keyword at most, and an operator is spelled like none. Of the operators at the front of a text
the longest is found (`longestOperator?_longest`), and no other is as long
(`longestOperator?_eq_some`).
-/

namespace Descent

namespace Lexicon

/-! ## Lexemes that do not clash -/

/-- Among lexemes that do not clash none is empty. -/
theorem ne_empty_of_firstClash {rule : CaseRule} {seen : List (String × String)}
    {lexemes : List String} (h : firstClash rule seen lexemes = none) :
    ∀ lexeme ∈ lexemes, lexeme ≠ "" := by
  induction lexemes generalizing seen with
  | nil => exact nofun
  | cons first rest ih =>
    unfold firstClash at h
    split at h
    · cases h
    · rename_i hfirst
      split at h
      · cases h
      · intro lexeme hlexeme
        rcases List.mem_cons.mp hlexeme with rfl | hrest
        · exact hfirst
        · exact ih h lexeme hrest

/-- Lexemes that do not clash, with one another or with those seen before, differ in their normal
forms. -/
theorem pairwise_of_firstClash {rule : CaseRule} {seen : List (String × String)}
    {lexemes : List String} (h : firstClash rule seen lexemes = none) :
    (∀ lexeme ∈ lexemes, seen.lookup (rule.normalize lexeme) = none) ∧
    lexemes.Pairwise fun first later => rule.normalize first ≠ rule.normalize later := by
  induction lexemes generalizing seen with
  | nil => exact ⟨nofun, .nil⟩
  | cons first rest ih =>
    unfold firstClash at h
    split at h
    · cases h
    · split at h
      · cases h
      · rename_i hunseen
        obtain ⟨hlookup, hrest⟩ := ih h
        -- what is not found among those seen and the first is neither
        have hafter : ∀ later ∈ rest, rule.normalize later ≠ rule.normalize first ∧
            seen.lookup (rule.normalize later) = none := by
          intro later hlater
          have hnone := hlookup later hlater
          rw [List.lookup_cons] at hnone
          split at hnone
          · cases hnone
          · rename_i hne
            exact ⟨ne_of_beq_false hne, hnone⟩
        refine ⟨fun lexeme hlexeme => ?_, .cons (fun later h => (hafter later h).1.symm) hrest⟩
        rcases List.mem_cons.mp hlexeme with rfl | hlater
        · exact hunseen
        · exact (hafter lexeme hlater).2

variable (lexicon : Lexicon) {operator keyword text : String}

theorem normalize_pairwise :
    (lexicon.operators ++ lexicon.keywords).Pairwise fun first later =>
      lexicon.rule.normalize first ≠ lexicon.rule.normalize later :=
  (pairwise_of_firstClash lexicon.distinct).2

theorem operator_length_pos {operator : String} (h : operator ∈ lexicon.operators) :
    0 < operator.length := by
  have hne := ne_empty_of_firstClash lexicon.distinct operator (List.mem_append_left _ h)
  exact Nat.pos_of_ne_zero fun hzero => hne (String.length_eq_zero_iff.mp hzero)

/-! ## Names and what they stand for -/

/-- A keyword is found under every spelling that the rule takes for its own. -/
theorem keyword?_eq_some (h : keyword ∈ lexicon.keywords)
    (hspelled : lexicon.rule.normalize keyword = lexicon.rule.normalize text) :
    lexicon.keyword? text = some keyword := by
  have hpairwise := (List.pairwise_append.mp lexicon.normalize_pairwise).2.1
  obtain ⟨before, after, hsplit⟩ := List.append_of_mem h
  rw [hsplit] at hpairwise
  refine List.find?_eq_some_iff_append.mpr
    ⟨beq_iff_eq.mpr hspelled, before, after, hsplit, fun other hother => ?_⟩
  -- a keyword before it has another normal form
  have hother' := (List.pairwise_append.mp hpairwise).2.2 other hother keyword (.head _)
  rw [hspelled] at hother'
  rw [beq_false_of_ne hother', Bool.not_false]

/-- No keyword is spelled like an operator. -/
theorem keyword?_operator (h : operator ∈ lexicon.operators) :
    lexicon.keyword? operator = none := by
  refine List.find?_eq_none.mpr fun keyword hkeyword hequal => ?_
  have hcross := (List.pairwise_append.mp lexicon.normalize_pairwise).2.2
  exact hcross operator h keyword hkeyword (beq_iff_eq.mp hequal).symm

theorem resolve?_operator (h : operator ∈ lexicon.operators) :
    lexicon.resolve? operator = some operator := by
  cases hfound : lexicon.operators.find? (· == operator) with
  | none => exact absurd (beq_self_eq_true operator) (List.find?_eq_none.mp hfound operator h)
  | some found =>
    have hsame : (found == operator) = true := List.find?_some (p := (· == operator)) hfound
    rw [resolve?, hfound, beq_iff_eq.mp hsame, Option.some_or]

theorem resolve?_of_not_mem (h : text ∉ lexicon.operators) :
    lexicon.resolve? text = lexicon.keyword? text := by
  have hnone : lexicon.operators.find? (· == text) = none :=
    List.find?_eq_none.mpr fun operator hmem hequal => h (beq_iff_eq.mp hequal ▸ hmem)
  rw [resolve?, hnone, Option.none_or]

/-! ## The longest operator -/

theorem longestOperator?_eq_none {operators : List String} {text : List Char} :
    longestOperator? operators text = none ↔
      ∀ operator ∈ operators, ¬ operator.toList <+: text := by
  induction operators with
  | nil => exact ⟨fun _ => nofun, fun _ => rfl⟩
  | cons first rest ih =>
    rw [List.forall_mem_cons, ← ih, longestOperator?]
    by_cases hfirst : first.toList.isPrefixOf text = true
    · have hbegins := List.isPrefixOf_iff_prefix.mp hfirst
      rw [if_pos hfirst]
      refine ⟨fun h => ?_, fun h => absurd hbegins h.1⟩
      split at h
      · split at h <;> cases h
      · cases h
    · have hbegins : ¬ first.toList <+: text := mt List.isPrefixOf_iff_prefix.mpr hfirst
      rw [if_neg hfirst]
      exact ⟨fun h => ⟨hbegins, h⟩, fun h => h.2⟩

/-- The operator that is found is one of them, it stands at the front of the text, and no other that
stands there is longer. -/
theorem longestOperator?_longest {operators : List String} {text : List Char}
    {operator : String} (h : longestOperator? operators text = some operator) :
    operator ∈ operators ∧ operator.toList <+: text ∧
    ∀ other ∈ operators, other.toList <+: text → other.length ≤ operator.length := by
  induction operators generalizing operator with
  | nil => cases h
  | cons first rest ih =>
    simp only [longestOperator?] at h
    split at h
    · rename_i hfirst
      have hbegins := List.isPrefixOf_iff_prefix.mp hfirst
      cases hbest : longestOperator? rest text with
      | none =>
        rw [hbest] at h
        cases h
        refine ⟨.head _, hbegins, fun other hother hother' => ?_⟩
        rcases List.mem_cons.mp hother with rfl | hrest
        · exact Nat.le_refl _
        · exact absurd hother' (longestOperator?_eq_none.mp hbest other hrest)
      | some best =>
        obtain ⟨hmem, hfront, hlongest⟩ := ih hbest
        rw [hbest] at h
        dsimp only at h
        split at h
        · rename_i hshorter
          cases h
          refine ⟨.tail _ hmem, hfront, fun other hother hother' => ?_⟩
          rcases List.mem_cons.mp hother with rfl | hrest
          · exact Nat.le_of_lt hshorter
          · exact hlongest other hrest hother'
        · rename_i hnotshorter
          cases h
          refine ⟨.head _, hbegins, fun other hother hother' => ?_⟩
          rcases List.mem_cons.mp hother with rfl | hrest
          · exact Nat.le_refl _
          · exact Nat.le_trans (hlongest other hrest hother') (Nat.le_of_not_lt hnotshorter)
    · rename_i hfirst
      obtain ⟨hmem, hfront, hlongest⟩ := ih h
      refine ⟨.tail _ hmem, hfront, fun other hother hother' => ?_⟩
      rcases List.mem_cons.mp hother with rfl | hrest
      · exact absurd (List.isPrefixOf_iff_prefix.mpr hother') hfirst
      · exact hlongest other hrest hother'

theorem longestOperator?_length_le {operators : List String} {text : List Char}
    {operator : String} (h : longestOperator? operators text = some operator) :
    operator.length ≤ text.length := by
  rw [← String.length_toList]
  exact (longestOperator?_longest h).2.1.length_le

/-- Two texts at the front of a third are the same if they are equally long. So there is only one
longest operator. -/
theorem longestOperator?_eq_some {operators : List String} {text : List Char}
    {operator : String} (hmem : operator ∈ operators) (hfront : operator.toList <+: text)
    (hlongest : ∀ other ∈ operators, other.toList <+: text → other.length ≤ operator.length) :
    longestOperator? operators text = some operator := by
  cases hfound : longestOperator? operators text with
  | none => exact absurd hfront (longestOperator?_eq_none.mp hfound operator hmem)
  | some found =>
    obtain ⟨hmem', hfront', hlongest'⟩ := longestOperator?_longest hfound
    have hlength : found.toList.length = operator.toList.length := by
      rw [String.length_toList, String.length_toList]
      exact Nat.le_antisymm (hlongest found hmem' hfront') (hlongest' operator hmem hfront)
    have hsame : found.toList = operator.toList :=
      (List.prefix_of_prefix_length_le hfront' hfront (Nat.le_of_eq hlength)).eq_of_length hlength
    rw [String.toList_inj.mp hsame]

end Lexicon

end Descent
