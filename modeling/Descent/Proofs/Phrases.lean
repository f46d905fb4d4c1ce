import Descent.Proofs.Naming
import Descent.Proofs.OneOf

/-!
A phrase is its words, one after another.

As many of the words lead the tokens as stand there in order, from the place on
(`Lexicon.leading`). If all do, the phrase is these tokens. Otherwise the word after them is expected
where they end, which is further on than the place if there are any of them; and so the name of the
phrase takes the place of a failure at its first word, and of no other (`Registry.phrase_leads`).
-/

namespace Descent

variable {S : Scope}

/-- How many of the words stand one after another at the front of the tokens. -/
def Lexicon.leading (lexicon : Lexicon) (words : List String) (tokens : List Token) : Nat :=
  ((words.zip tokens).takeWhile fun pair => lexicon.calls pair.2 pair.1).length

namespace Lexicon

variable {lexicon : Lexicon} {word : String} {words : List String} {token : Token}
  {tokens : List Token}

theorem leading_nil_right (lexicon : Lexicon) (words : List String) :
    lexicon.leading words [] = 0 := by
  rw [leading, List.zip_nil_right, List.takeWhile_nil, List.length_nil]

theorem leading_cons (h : lexicon.calls token word = true) :
    lexicon.leading (word :: words) (token :: tokens) = lexicon.leading words tokens + 1 := by
  simp only [leading, List.zip_cons_cons, List.takeWhile_cons, h, if_true, List.length_cons]

theorem leading_cons_of_not (h : ¬ lexicon.calls token word = true) :
    lexicon.leading (word :: words) (token :: tokens) = 0 := by
  simp only [leading, List.zip_cons_cons, List.takeWhile_cons, h, Bool.false_eq_true, if_false,
    List.length_nil]

end Lexicon

namespace State

variable {a : Alphabet} {s : State a} {unit : a.Item}

theorem index_advance_of_next? (h : s.next? = some unit) : s.advance.index = s.index + 1 := by
  obtain ⟨hlt, -⟩ := List.getElem?_eq_some_iff.mp h
  rw [advance, if_pos (s.hasNext_iff.mpr hlt)]

theorem drop_of_next? (h : s.next? = some unit) :
    s.input.drop s.index = unit :: s.advance.input.drop s.advance.index := by
  obtain ⟨hlt, hunit⟩ := List.getElem?_eq_some_iff.mp h
  rw [List.drop_eq_getElem_cons hlt, hunit, input_advance, index_advance_of_next? h]

theorem drop_of_next?_none (h : s.next? = none) : s.input.drop s.index = [] :=
  List.drop_eq_nil_of_le (List.getElem?_eq_none_iff.mp h)

end State

/-- A name is put in the place of a word that is expected at the place, and of none further on. -/
theorem Rules.label_of_expected {rules : Rules S} {a : Alphabet} {α : Type} {p : Parser a α}
    (hp : rules.Admits p) (name : String) {s t : State a} {severity : Severity} {k : Nat}
    {word : String} (h : p s.dropFailure = .fail severity t)
    (hfailure : t.failure = some ⟨s.index + k, [word], none, (s.restore (s.index + k)).encountered⟩) :
    ∃ u, Parser.label name p s = .fail severity u ∧ u.index = s.index ∧
      u.failure = some (Failure.record s.failure
        ⟨s.index + k, [if k = 0 then name else word], none,
          (s.restore (s.index + k)).encountered⟩) := by
  by_cases hzero : k = 0
  · subst hzero
    have hhere : ¬ t.failedBeyond s.index = true := by
      rw [State.failedBeyond_iff, hfailure]
      rintro ⟨failure, ⟨⟩, hbeyond⟩
      exact Nat.lt_irrefl _ hbeyond
    obtain ⟨u, hu, hindex, -, hnamed⟩ := label_of_not_beyond hp name h hhere
    refine ⟨u, hu, hindex, ?_⟩
    rw [if_pos rfl, hnamed, Failure.furthest_some]
    rfl
  · have hbeyond : t.failedBeyond s.index = true :=
      State.failedBeyond_iff.mpr ⟨_, hfailure, Nat.lt_add_of_pos_right (Nat.pos_of_ne_zero hzero)⟩
    obtain ⟨u, hu, hindex, -, hkept⟩ := label_of_beyond hp name h hbeyond
    refine ⟨u, hu, hindex, ?_⟩
    rw [if_neg hzero, hkept, hfailure, Failure.furthest_some]

namespace Registry

variable (rules : Rules S) (registry : Registry S)

/-- The words of a phrase, without its name. -/
theorem sequence_leads (words : List String) (s : State .tokens) :
    ∃ k, k = registry.lexicon.leading words (s.input.drop s.index) ∧
      ((k = words.length ∧ ∃ t,
        rules.parser (.sequence (words.map fun word => registry.token [word])) s =
          .ok ((s.input.drop s.index).take k) t ∧
        t.index = s.index + k ∧ t.failure = s.failure) ∨
      ∃ h : k < words.length, ∃ t,
        rules.parser (.sequence (words.map fun word => registry.token [word])) s =
          .fail .recoverable t ∧
        t.failure = some (Failure.record s.failure
          ⟨s.index + k, [words[k]], none, (s.restore (s.index + k)).encountered⟩)) := by
  -- after a word that stands there the rest of the words is looked for from the next token on
  induction words generalizing s with
  | nil => exact ⟨0, rfl, .inl ⟨rfl, s, rfl, rfl, rfl⟩⟩
  | cons word words ih =>
    have hstep := rules.oneOf_cases registry.lexicon.calls id [word] s
    rw [← registry.token_eq_oneOf] at hstep
    simp only [List.any_cons, List.any_nil, Bool.or_false] at hstep
    rcases hstep with ⟨token, hnext, hcalls, hrun⟩ | ⟨hcalls, hrun⟩
    · obtain ⟨k, hk, hrest⟩ := ih s.advance
      have hindex : s.index + (k + 1) = s.advance.index + k := by
        rw [State.index_advance_of_next? hnext, Nat.add_assoc, Nat.add_comm 1]
      refine ⟨k + 1, ?_, ?_⟩
      · rw [State.drop_of_next? hnext, Lexicon.leading_cons hcalls, hk]
      · rcases hrest with ⟨hall, t, hrun', ht, hfailure⟩ | ⟨hlt, t, hrun', hfailure⟩
        · refine .inl ⟨congrArg (· + 1) hall, t, ?_, hindex ▸ ht, hfailure.trans s.failure_advance⟩
          rw [State.drop_of_next? hnext, List.take_succ_cons]
          exact Parser.seqWith_ok_ok hrun hrun'
        · refine .inr ⟨Nat.succ_lt_succ hlt, _, Parser.seqWith_ok_fail hrun hrun', ?_⟩
          have hencountered (i : Nat) : (s.advance.restore i).encountered = (s.restore i).encountered :=
            State.encountered_congr s.input_advance rfl
          rw [s.failure_advance, hencountered] at hfailure
          rw [hindex]
          exact hfailure
    · refine ⟨0, ?_, .inr ⟨Nat.succ_pos _, _, Parser.seqWith_fail hrun, rfl⟩⟩
      cases hnext : s.next? with
      | none => rw [State.drop_of_next?_none hnext, Lexicon.leading_nil_right]
      | some token =>
        rw [State.drop_of_next? hnext, Lexicon.leading_cons_of_not (hcalls token hnext)]

/-- **Phrases.** Let `k` be the number of words that stand one after another at the front of the tokens
from the place on, where a token is a word if it is the lexeme that the word stands for. If these are
all the words, the phrase is taken as these tokens, and what was on record stays as it was. Otherwise it
fails recoverably at its place, and what was on record is united with a failure where the `k` tokens
end, about what stands there: the next word is expected, and if there is none before it, the whole
phrase. -/
theorem phrase_leads (words : List String) (s : State .tokens) :
    ∃ k, k = registry.lexicon.leading words (s.input.drop s.index) ∧
      ((k = words.length ∧ ∃ t, rules.parser (registry.phrase words) s =
          .ok ((s.input.drop s.index).take k) t ∧
        t.index = s.index + k ∧ t.failure = s.failure) ∨
      ∃ h : k < words.length, ∃ t,
        rules.parser (registry.phrase words) s = .fail .recoverable t ∧ t.index = s.index ∧
        t.failure = some (Failure.record s.failure
          ⟨s.index + k, [if k = 0 then " ".intercalate words else words[k]], none,
            (s.restore (s.index + k)).encountered⟩)) := by
  have hadmits : rules.Admits
      (rules.parser (.sequence (words.map fun word => registry.token [word]))) := .grammar _
  obtain ⟨k, hk, hrest⟩ := registry.sequence_leads rules words s.dropFailure
  refine ⟨k, hk, ?_⟩
  rcases hrest with ⟨hall, t, hrun, hindex, hfailure⟩ | ⟨hlt, t, hrun, hfailure⟩
  · obtain ⟨u, hu, hindex', -, hfailure'⟩ :=
      Rules.label_of_ok hadmits (" ".intercalate words) hrun
    refine .inl ⟨hall, u, hu, hindex'.trans hindex, hfailure'.trans ?_⟩
    rw [hfailure]
    exact Failure.furthest_none _
  · exact .inr ⟨hlt, Rules.label_of_expected hadmits (" ".intercalate words) hrun hfailure⟩

end Registry

end Descent
