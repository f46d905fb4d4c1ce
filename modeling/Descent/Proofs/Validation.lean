import Descent.Proofs.Vocabulary
import Mathlib.Data.List.Induction
import Mathlib.Data.List.Nodup

/-!
Which lexemes make a vocabulary, and what is said of those that do not.

Lexemes are looked at in their order, operators before keywords. Those that pass (`Lexicon.Sound`) are
not empty and have different normal forms. Either all of them pass, or there is a first one that does
not (`Lexicon.exists_offence`); and since the lexemes before it have different normal forms, at most
one of them is spelled like it. The search for a clash goes past lexemes that pass
(`Lexicon.firstClash_append`), and so it ends at the first offence, and for its reason.
-/

namespace Descent

namespace Lexicon

variable {rule : CaseRule} {before lexemes : List String} {lexeme : String} {error : LexiconError}

/-! ## Lexemes that pass -/

/-- None of the lexemes is empty, and no two of them are spelled alike. -/
structure Sound (rule : CaseRule) (lexemes : List String) : Prop where
  ne_empty : ∀ lexeme ∈ lexemes, lexeme ≠ ""
  pairwise : lexemes.Pairwise fun first later => rule.normalize first ≠ rule.normalize later

/-- Why a lexeme does not pass after others that do. -/
inductive Offends (rule : CaseRule) (before : List String) (lexeme : String) :
    LexiconError → Prop where
  | empty (h : lexeme = "") : Offends rule before lexeme .empty
  | duplicate {existing : String} (ne_empty : lexeme ≠ "") (mem : existing ∈ before)
      (spelled : rule.normalize existing = rule.normalize lexeme)
      (only : ∀ other ∈ before, rule.normalize other = rule.normalize lexeme → other = existing) :
      Offends rule before lexeme (.duplicate existing lexeme)

theorem Sound.nil (rule : CaseRule) : Sound rule [] :=
  ⟨nofun, .nil⟩

theorem sound_concat_iff : Sound rule (before ++ [lexeme]) ↔ Sound rule before ∧ lexeme ≠ "" ∧
    ∀ other ∈ before, rule.normalize other ≠ rule.normalize lexeme := by
  constructor
  · rintro ⟨hempty, hpairwise⟩
    obtain ⟨hbefore, -, hcross⟩ := List.pairwise_append.mp hpairwise
    exact ⟨⟨fun other h => hempty other (List.mem_append_left _ h), hbefore⟩,
      hempty lexeme (List.mem_append_right _ (.head _)),
      fun other h => hcross other h lexeme (.head _)⟩
  · rintro ⟨⟨hempty, hpairwise⟩, hlexeme, hcross⟩
    refine ⟨fun other h => ?_, List.pairwise_append.mpr ⟨hpairwise, List.pairwise_singleton _ _, ?_⟩⟩
    · rcases List.mem_append.mp h with hbefore | hlast
      · exact hempty other hbefore
      · rwa [List.mem_singleton.mp hlast]
    · intro other hother last hlast
      rw [List.mem_singleton.mp hlast]
      exact hcross other hother

theorem Sound.of_append {after : List String} (h : Sound rule (before ++ after)) :
    Sound rule before :=
  ⟨fun other hother => h.ne_empty other (List.mem_append_left _ hother),
    (List.pairwise_append.mp h.pairwise).1⟩

/-- Lexemes with one normal form are one, if they pass. -/
theorem Sound.eq_of_normalize_eq {first second : String} (h : Sound rule lexemes)
    (hfirst : first ∈ lexemes) (hsecond : second ∈ lexemes)
    (hspelled : rule.normalize first = rule.normalize second) : first = second :=
  List.inj_on_of_nodup_map (List.pairwise_map.mpr h.pairwise) hfirst hsecond hspelled

/-- After lexemes that pass, the next one does too or offends. -/
theorem Sound.concat_or_offends (h : Sound rule before) (lexeme : String) :
    Sound rule (before ++ [lexeme]) ∨ ∃ error, Offends rule before lexeme error := by
  by_cases hempty : lexeme = ""
  · exact .inr ⟨_, .empty hempty⟩
  · by_cases hspelled : ∃ existing ∈ before, rule.normalize existing = rule.normalize lexeme
    · obtain ⟨existing, hmem, hsame⟩ := hspelled
      refine .inr ⟨_, .duplicate hempty hmem hsame fun other hother hother' => ?_⟩
      exact h.eq_of_normalize_eq hother hmem (hother'.trans hsame.symm)
    · exact .inl (sound_concat_iff.mpr ⟨h, hempty, fun other hother hsame =>
        hspelled ⟨other, hother, hsame⟩⟩)

/-- Lexemes that do not all pass have a first one that does not. -/
theorem exists_offence (h : ¬ Sound rule lexemes) :
    ∃ before lexeme after error, lexemes = before ++ lexeme :: after ∧ Sound rule before ∧
      Offends rule before lexeme error := by
  -- from the end, since a lexeme offends by what is before it
  induction lexemes using List.reverseRecOn with
  | nil => exact absurd (.nil rule) h
  | append_singleton lexemes last ih =>
    by_cases hlexemes : Sound rule lexemes
    · obtain ⟨error, herror⟩ := (hlexemes.concat_or_offends last).resolve_left h
      exact ⟨lexemes, last, [], error, rfl, hlexemes, herror⟩
    · obtain ⟨before, lexeme, after, error, rfl, hbefore, herror⟩ := ih hlexemes
      exact ⟨before, lexeme, after ++ [last], error, List.append_assoc _ _ _, hbefore, herror⟩

/-! ## The search for a clash -/

/-- What has been seen is these lexemes, each to be found under its normal form. -/
def Remembers (rule : CaseRule) (seen : List (String × String)) (before : List String) : Prop :=
  ∀ normal existing, seen.lookup normal = some existing ↔
    existing ∈ before ∧ rule.normalize existing = normal

theorem remembers_nil (rule : CaseRule) : Remembers rule [] [] := by
  simp [Remembers]

/-- A lexeme that passes hides none of those before it. -/
theorem Remembers.concat {seen : List (String × String)} (h : Remembers rule seen before)
    (hsound : Sound rule (before ++ [lexeme])) :
    Remembers rule ((rule.normalize lexeme, lexeme) :: seen) (before ++ [lexeme]) := by
  have hlast : lexeme ∈ before ++ [lexeme] := List.mem_append_right _ (.head _)
  intro normal existing
  by_cases hnormal : normal = rule.normalize lexeme
  · rw [hnormal, List.lookup_cons_self, Option.some_inj]
    constructor
    · rintro rfl
      exact ⟨hlast, rfl⟩
    · rintro ⟨hmem, hspelled⟩
      exact hsound.eq_of_normalize_eq hlast hmem hspelled.symm
  · rw [List.lookup_cons, beq_false_of_ne hnormal, h, List.mem_append, List.mem_singleton]
    constructor
    · rintro ⟨hmem, hspelled⟩
      exact ⟨.inl hmem, hspelled⟩
    · rintro ⟨hmem | rfl, hspelled⟩
      · exact ⟨hmem, hspelled⟩
      · exact absurd hspelled.symm hnormal

/-- The search goes past a lexeme that passes. -/
theorem firstClash_cons {seen : List (String × String)} (h : Remembers rule seen before)
    (hsound : Sound rule (before ++ [lexeme])) (rest : List String) :
    firstClash rule seen (lexeme :: rest) =
      firstClash rule ((rule.normalize lexeme, lexeme) :: seen) rest := by
  obtain ⟨-, hempty, hcross⟩ := sound_concat_iff.mp hsound
  have hunseen : seen.lookup (rule.normalize lexeme) = none := by
    rw [Option.eq_none_iff_forall_ne_some]
    intro existing hfound
    obtain ⟨hmem, hspelled⟩ := (h _ _).mp hfound
    exact hcross existing hmem hspelled
  simp only [firstClash, if_neg hempty, hunseen]

/-- So it goes past any number of them, and remembers them all. -/
theorem firstClash_append {seen : List (String × String)} {between : List String}
    (h : Remembers rule seen before) (hsound : Sound rule (before ++ between))
    (rest : List String) :
    ∃ seen', Remembers rule seen' (before ++ between) ∧
      firstClash rule seen (between ++ rest) = firstClash rule seen' rest := by
  induction between generalizing before seen with
  | nil => exact ⟨seen, by rwa [List.append_nil], rfl⟩
  | cons lexeme between ih =>
    rw [List.append_cons] at hsound ⊢
    have hnext : Sound rule (before ++ [lexeme]) := hsound.of_append
    obtain ⟨seen', hseen', hrun⟩ := ih (h.concat hnext) hsound
    exact ⟨seen', hseen', (firstClash_cons h hnext _).trans hrun⟩

/-- It ends at a lexeme that offends. -/
theorem firstClash_of_offends {seen : List (String × String)} (h : Remembers rule seen before)
    (hoffends : Offends rule before lexeme error) (after : List String) :
    firstClash rule seen (lexeme :: after) = some error := by
  cases hoffends with
  | empty hempty => simp only [firstClash, if_pos hempty]
  | duplicate hempty hmem hspelled _ =>
    simp only [firstClash, if_neg hempty, (h _ _).mpr ⟨hmem, hspelled⟩]

theorem firstClash_eq_some_of_offends {after : List String} (hbefore : Sound rule before)
    (hoffends : Offends rule before lexeme error) :
    firstClash rule [] (before ++ lexeme :: after) = some error := by
  obtain ⟨seen, hseen, hrun⟩ :=
    firstClash_append (remembers_nil rule) hbefore (lexeme :: after)
  rw [hrun]
  exact firstClash_of_offends hseen hoffends after

theorem firstClash_eq_none_iff : firstClash rule [] lexemes = none ↔ Sound rule lexemes := by
  constructor
  · exact fun h => ⟨ne_empty_of_firstClash h, (pairwise_of_firstClash h).2⟩
  · intro h
    obtain ⟨seen, -, hrun⟩ := firstClash_append (remembers_nil rule) h []
    rwa [List.append_nil] at hrun

theorem firstClash_eq_some_iff : firstClash rule [] lexemes = some error ↔
    ∃ before lexeme after, lexemes = before ++ lexeme :: after ∧ Sound rule before ∧
      Offends rule before lexeme error := by
  constructor
  · intro h
    have hunsound : ¬ Sound rule lexemes := by
      rw [← firstClash_eq_none_iff, h]
      exact nofun
    obtain ⟨before, lexeme, after, first, rfl, hbefore, hoffends⟩ := exists_offence hunsound
    rw [firstClash_eq_some_of_offends hbefore hoffends, Option.some_inj] at h
    exact ⟨before, lexeme, after, rfl, hbefore, h ▸ hoffends⟩
  · rintro ⟨before, lexeme, after, rfl, hbefore, hoffends⟩
    exact firstClash_eq_some_of_offends hbefore hoffends

/-! ## Vocabularies that are built -/

section

variable {operators keywords : List String} {lexicon : Lexicon}

theorem of_build_eq_ok (h : build operators keywords rule = .ok lexicon) :
    lexicon.operators = operators ∧ lexicon.keywords = keywords ∧ lexicon.rule = rule := by
  unfold build at h
  split at h
  · cases h
    exact ⟨rfl, rfl, rfl⟩
  · cases h

theorem exists_build_eq_ok_iff : (∃ lexicon, build operators keywords rule = .ok lexicon) ↔
    Sound rule (operators ++ keywords) := by
  rw [← firstClash_eq_none_iff]
  unfold build
  split
  · rename_i hnone
    exact ⟨fun _ => hnone, fun _ => ⟨_, rfl⟩⟩
  · rename_i error hsome
    rw [hsome]
    exact ⟨nofun, nofun⟩

theorem build_eq_error_iff : build operators keywords rule = .error error ↔
    firstClash rule [] (operators ++ keywords) = some error := by
  unfold build
  split
  · rename_i hnone
    exact ⟨nofun, fun hsome => nomatch hnone.symm.trans hsome⟩
  · rename_i found hsome
    rw [hsome, Except.error.injEq, Option.some_inj]

/-- To check lexemes is to build a vocabulary of them and to forget it. -/
theorem checkLexemes_eq_build (operators keywords : List String) (rule : CaseRule) :
    checkLexemes operators keywords rule = (build operators keywords rule).map fun _ => () := by
  cases h : build operators keywords rule with
  | ok lexicon =>
    have hnone := firstClash_eq_none_iff.mpr (exists_build_eq_ok_iff.mp ⟨lexicon, h⟩)
    rw [checkLexemes, hnone]
    rfl
  | error error =>
    rw [checkLexemes, build_eq_error_iff.mp h]
    rfl

end

/-! ## What names stand for -/

section

variable (lexicon : Lexicon) {keyword name : String}

/-- A name spelled like a keyword stands for it, since no operator is spelled like one. -/
theorem resolve?_of_keyword (h : keyword ∈ lexicon.keywords)
    (hspelled : lexicon.rule.normalize name = lexicon.rule.normalize keyword) :
    lexicon.resolve? name = some keyword := by
  have hfound : lexicon.keyword? name = some keyword := lexicon.keyword?_eq_some h hspelled.symm
  have hmem : name ∉ lexicon.operators := by
    intro hmem
    rw [lexicon.keyword?_operator hmem] at hfound
    cases hfound
  rw [lexicon.resolve?_of_not_mem hmem, hfound]

theorem resolve?_eq_none (hoperators : name ∉ lexicon.operators)
    (hkeywords : ∀ keyword ∈ lexicon.keywords,
      lexicon.rule.normalize name ≠ lexicon.rule.normalize keyword) :
    lexicon.resolve? name = none := by
  rw [lexicon.resolve?_of_not_mem hoperators]
  refine List.find?_eq_none.mpr fun keyword hkeyword hsame => ?_
  exact hkeywords keyword hkeyword (beq_iff_eq.mp hsame).symm

/-- Every lexeme stands for itself. -/
theorem resolve?_lexeme {lexeme : String} (h : lexeme ∈ lexicon.operators ++ lexicon.keywords) :
    lexicon.resolve? lexeme = some lexeme := by
  rcases List.mem_append.mp h with hoperator | hkeyword
  · exact lexicon.resolve?_operator hoperator
  · exact lexicon.resolve?_of_keyword hkeyword rfl

end

/-- **Which lexemes make a vocabulary.** A vocabulary is built exactly if no lexeme is empty and all of
them, operators and keywords together, have different normal forms. Otherwise the first lexeme that
offends decides the error: it is empty, or else it is spelled like one lexeme before it, and both are
named. Checking says the same as building. In a vocabulary that has been built every lexeme stands for
itself, a name spelled like a keyword for that keyword, and no other name for anything. -/
theorem build_validates (operators keywords : List String) (rule : CaseRule) :
    ((∃ lexicon, build operators keywords rule = .ok lexicon) ↔
      Sound rule (operators ++ keywords)) ∧
    (∀ error, build operators keywords rule = .error error ↔
      ∃ before lexeme after, operators ++ keywords = before ++ lexeme :: after ∧
        Sound rule before ∧ Offends rule before lexeme error) ∧
    (checkLexemes operators keywords rule = (build operators keywords rule).map fun _ => ()) ∧
    ∀ lexicon, build operators keywords rule = .ok lexicon →
      (lexicon.operators = operators ∧ lexicon.keywords = keywords ∧ lexicon.rule = rule) ∧
      (∀ lexeme ∈ operators ++ keywords, lexicon.resolve? lexeme = some lexeme) ∧
      (∀ keyword ∈ keywords, ∀ name, rule.normalize name = rule.normalize keyword →
        lexicon.resolve? name = some keyword) ∧
      ∀ name, name ∉ operators →
        (∀ keyword ∈ keywords, rule.normalize name ≠ rule.normalize keyword) →
        lexicon.resolve? name = none := by
  refine ⟨exists_build_eq_ok_iff, fun error => ?_, checkLexemes_eq_build operators keywords rule, ?_⟩
  · rw [build_eq_error_iff, firstClash_eq_some_iff]
  · intro lexicon h
    obtain ⟨rfl, rfl, rfl⟩ := of_build_eq_ok h
    exact ⟨⟨rfl, rfl, rfl⟩, fun _ => lexicon.resolve?_lexeme,
      fun _ hkeyword _ => lexicon.resolve?_of_keyword hkeyword, fun _ => lexicon.resolve?_eq_none⟩

/-- The keyword comes after the operator of its spelling, so it is the one that is refused. -/
example : checkLexemes ["A", "B"] ["a", "b"] .insensitive = .error (.duplicate "A" "a") := by
  decide +kernel

end Lexicon

end Descent
