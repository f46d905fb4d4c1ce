import Descent.Grammar.Combinator
import Descent.Proofs.Places

/-!
Lists with separators.

A list is an element and then, as long as there are any, separators with an element after each
(`Parser.Separated`). It goes on until the separator fails or the element after it does
(`Parser.StopsAt`), and it is over before that separator. All three kinds of lists are made of
sequences, repetitions and options, and what they do at a place follows from what those do there
(`Rules.parser_separated`).
-/

namespace Descent

namespace Parser

variable {a : Alphabet} {α β : Type} {element : Parser a α} {separator : Parser a β}
  {input : List a.Item} {i j k : Nat} {xs : List α}

/-- A chain of places: from each of them a separator and the element after it lead forwards to the
next, with these elements. -/
inductive Continues (element : Parser a α) (separator : Parser a β) (input : List a.Item) :
    Nat → List α → Nat → Prop where
  | none (i : Nat) : Continues element separator input i [] i
  | next {i j k l : Nat} {y : β} {x : α} {xs : List α} (separated : separator.Yields input i y j)
      (found : element.Yields input j x k) (moved : i < k)
      (rest : Continues element separator input k xs l) :
      Continues element separator input i (x :: xs) l

/-- An element, and a chain of separators and elements after it. -/
inductive Separated (element : Parser a α) (separator : Parser a β) (input : List a.Item) (i : Nat) :
    List α → Nat → Prop where
  | intro {j k : Nat} {x : α} {xs : List α} (first : element.Yields input i x j)
      (rest : Continues element separator input j xs k) :
      Separated element separator input i (x :: xs) k

/-- No other element follows: the separator fails, or the element after it does. -/
inductive StopsAt (element : Parser a α) (separator : Parser a β) (input : List a.Item) (k : Nat)
    (severity : Severity) : Prop where
  | separator (failed : separator.FailsAt input k severity)
  | element {y : β} {j : Nat} (separated : separator.Yields input k y j)
      (failed : element.FailsAt input j severity)

/-- Whether another element follows cannot be told: the separator is at fault or the element after it
is, or together they take nothing. -/
inductive BreaksAt (element : Parser a α) (separator : Parser a β) (input : List a.Item) (k : Nat) :
    Fault → Prop where
  | separator {f : Fault} (faulty : separator.FaultsAt input k f) : BreaksAt element separator input k f
  | element {y : β} {j : Nat} {f : Fault} (separated : separator.Yields input k y j)
      (faulty : element.FaultsAt input j f) : BreaksAt element separator input k f
  | still {y : β} {j : Nat} {x : α} (separated : separator.Yields input k y j)
      (found : element.Yields input j x k) :
      BreaksAt element separator input k (.emptyRepetition k)

/-! ## A separator and an element -/

section

variable (he : element.HistoryFree) (hb : separator.Backtracks)

include he hb

theorem steps_iff_continues : (seqWith (fun _ x => x) separator element).Steps input i xs k ↔
    Continues element separator input i xs k := by
  constructor
  · intro h
    induction h with
    | none i => exact .none i
    | step run moved rest ih =>
      obtain ⟨y, j, x, hseparator, helement, rfl⟩ :=
        (seqWith_yields_iff he hb _).mp ⟨_, run, rfl⟩
      exact .next hseparator helement moved ih
  · intro h
    induction h with
    | none i => exact .none i
    | next separated found moved rest ih =>
      obtain ⟨t, run, rfl⟩ := (seqWith_yields_iff he hb _).mpr ⟨_, _, _, separated, found, rfl⟩
      exact .step run moved ih

theorem failsAt_iff_stopsAt {severity : Severity} :
    (seqWith (fun _ x => x) separator element).FailsAt input k severity ↔
      StopsAt element separator input k severity := by
  rw [seqWith_failsAt_iff he hb]
  constructor
  · rintro (hseparator | ⟨y, j, hseparator, helement⟩)
    · exact .separator hseparator
    · exact .element hseparator helement
  · rintro (hseparator | ⟨hseparator, helement⟩)
    · exact .inl hseparator
    · exact .inr ⟨_, _, hseparator, helement⟩

theorem breaksDown_iff_breaksAt {f : Fault} :
    (seqWith (fun _ x => x) separator element).BreaksDown input k f ↔
      BreaksAt element separator input k f := by
  constructor
  · rintro (⟨run, still⟩ | run)
    · obtain ⟨y, j, x, hseparator, helement, rfl⟩ :=
        (seqWith_yields_iff he hb _).mp ⟨_, run, still⟩
      exact .still hseparator helement
    · rcases (seqWith_faultsAt_iff he hb _).mp run with hseparator | ⟨y, j, hseparator, helement⟩
      · exact .separator hseparator
      · exact .element hseparator helement
  · rintro (hseparator | ⟨hseparator, helement⟩ | ⟨hseparator, helement⟩)
    · exact .fault ((seqWith_faultsAt_iff he hb _).mpr (.inl hseparator))
    · exact .fault ((seqWith_faultsAt_iff he hb _).mpr (.inr ⟨_, _, hseparator, helement⟩))
    · obtain ⟨t, run, still⟩ :=
        (seqWith_yields_iff he hb (fun _ x => x)).mpr ⟨_, _, _, hseparator, helement, rfl⟩
      exact .still run still

end

/-- Where a list may be over, a separator is there or is missing. -/
theorem StopsAt.separator_cases (h : StopsAt element separator input k .recoverable) :
    (∃ y j, separator.Yields input k y j) ∨ separator.FailsAt input k .recoverable := by
  cases h with
  | separator failed => exact .inr failed
  | element separated failed => exact .inl ⟨_, _, separated⟩

end Parser

/-! ## Grammars -/

namespace Rules

variable {S : Scope} {a : Alphabet} {α β : Type} (rules : Rules S) (p : Grammar S a α)
  (separator : Grammar S a β) {input : List a.Item} {i k : Nat} {xs : List α}
  {severity : Severity} {f : Fault}

/-! ### After the first element

What is repeated after it is a separator with an element. -/

theorem more_yields_iff : (rules.parser (.many (.skipThen separator p))).Yields input i xs k ↔
    (rules.parser p).Continues (rules.parser separator) input i xs k ∧
      (rules.parser p).StopsAt (rules.parser separator) input k .recoverable :=
  (Parser.many_yields_iff (rules.parser_withPast _) (rules.parser_backtracks _)
    (rules.parser_standsPastEnd _)).trans
      (and_congr
        (Parser.steps_iff_continues (rules.parser_withPast p) (rules.parser_backtracks separator))
        (Parser.failsAt_iff_stopsAt (rules.parser_withPast p) (rules.parser_backtracks separator)))

theorem more_failsAt_iff :
    (rules.parser (.many (.skipThen separator p))).FailsAt input i severity ↔
      severity = .committed ∧ ∃ xs k,
        (rules.parser p).Continues (rules.parser separator) input i xs k ∧
          (rules.parser p).StopsAt (rules.parser separator) input k .committed :=
  (Parser.many_failsAt_iff (rules.parser_withPast _) (rules.parser_backtracks _)
    (rules.parser_standsPastEnd _)).trans
      (and_congr_right fun _ => exists₂_congr fun _ _ => and_congr
        (Parser.steps_iff_continues (rules.parser_withPast p) (rules.parser_backtracks separator))
        (Parser.failsAt_iff_stopsAt (rules.parser_withPast p) (rules.parser_backtracks separator)))

theorem more_faultsAt_iff : (rules.parser (.many (.skipThen separator p))).FaultsAt input i f ↔
    ∃ xs k, (rules.parser p).Continues (rules.parser separator) input i xs k ∧
      (rules.parser p).BreaksAt (rules.parser separator) input k f :=
  (Parser.many_faultsAt_iff (rules.parser_withPast _) (rules.parser_backtracks _)
    (rules.parser_standsPastEnd _)).trans
      (exists₂_congr fun _ _ => and_congr
        (Parser.steps_iff_continues (rules.parser_withPast p) (rules.parser_backtracks separator))
        (Parser.breaksDown_iff_breaksAt (rules.parser_withPast p)
          (rules.parser_backtracks separator)))

/-! ### At least one element -/

theorem sepBy1_yields_iff : (rules.parser (.sepBy1 p separator)).Yields input i xs k ↔
    (rules.parser p).Separated (rules.parser separator) input i xs k ∧
      (rules.parser p).StopsAt (rules.parser separator) input k .recoverable := by
  refine (Parser.seqWith_yields_iff (rules.parser_withPast (.many (.skipThen separator p)))
    (rules.parser_backtracks p) List.cons).trans ?_
  constructor
  · rintro ⟨x, j, rest, hfirst, hrest, rfl⟩
    obtain ⟨hcontinues, hstops⟩ := (rules.more_yields_iff p separator).mp hrest
    exact ⟨.intro hfirst hcontinues, hstops⟩
  · rintro ⟨⟨hfirst, hcontinues⟩, hstops⟩
    exact ⟨_, _, _, hfirst, (rules.more_yields_iff p separator).mpr ⟨hcontinues, hstops⟩, rfl⟩

theorem sepBy1_failsAt_iff : (rules.parser (.sepBy1 p separator)).FailsAt input i severity ↔
    (rules.parser p).FailsAt input i severity ∨ severity = .committed ∧ ∃ xs k,
      (rules.parser p).Separated (rules.parser separator) input i xs k ∧
        (rules.parser p).StopsAt (rules.parser separator) input k .committed := by
  refine (Parser.seqWith_failsAt_iff (rules.parser_withPast (.many (.skipThen separator p)))
    (rules.parser_backtracks p) List.cons).trans (or_congr_right ?_)
  constructor
  · rintro ⟨x, j, hfirst, hrest⟩
    obtain ⟨hcommitted, xs, k, hcontinues, hstops⟩ := (rules.more_failsAt_iff p separator).mp hrest
    exact ⟨hcommitted, _, _, .intro hfirst hcontinues, hstops⟩
  · rintro ⟨hcommitted, _, _, ⟨hfirst, hcontinues⟩, hstops⟩
    exact ⟨_, _, hfirst,
      (rules.more_failsAt_iff p separator).mpr ⟨hcommitted, _, _, hcontinues, hstops⟩⟩

theorem sepBy1_faultsAt_iff : (rules.parser (.sepBy1 p separator)).FaultsAt input i f ↔
    (rules.parser p).FaultsAt input i f ∨ ∃ xs k,
      (rules.parser p).Separated (rules.parser separator) input i xs k ∧
        (rules.parser p).BreaksAt (rules.parser separator) input k f := by
  refine (Parser.seqWith_faultsAt_iff (rules.parser_withPast (.many (.skipThen separator p)))
    (rules.parser_backtracks p) List.cons).trans (or_congr_right ?_)
  constructor
  · rintro ⟨x, j, hfirst, hrest⟩
    obtain ⟨xs, k, hcontinues, hbreaks⟩ := (rules.more_faultsAt_iff p separator).mp hrest
    exact ⟨_, _, .intro hfirst hcontinues, hbreaks⟩
  · rintro ⟨_, _, ⟨hfirst, hcontinues⟩, hbreaks⟩
    exact ⟨_, _, hfirst, (rules.more_faultsAt_iff p separator).mpr ⟨_, _, hcontinues, hbreaks⟩⟩

theorem sepBy1_recoverable_iff :
    (rules.parser (.sepBy1 p separator)).FailsAt input i .recoverable ↔
      (rules.parser p).FailsAt input i .recoverable :=
  (rules.sepBy1_failsAt_iff p separator).trans (or_iff_left fun h => absurd h.1 nofun)

/-! ### And perhaps a separator

Where a list may be over, the separator is there or fails recoverably; so asking for it once more
neither commits nor is at fault. -/

theorem ended_yields_iff {l : Nat} :
    (rules.parser (.thenSkip (.sepBy1 p separator) (.optional separator))).Yields input i xs l ↔
      ∃ k, (rules.parser (.sepBy1 p separator)).Yields input i xs k ∧
        ((∃ y, (rules.parser separator).Yields input k y l) ∨
          (rules.parser separator).FailsAt input k .recoverable ∧ l = k) := by
  refine (Parser.seqWith_yields_iff (rules.parser_withPast (.optional separator))
    (rules.parser_backtracks (.sepBy1 p separator)) _).trans ?_
  constructor
  · rintro ⟨xs, k, found, hlist, hfound, rfl⟩
    rcases Parser.optional_yields_iff.mp hfound with ⟨y, hy, -⟩ | ⟨hfails, -, hl⟩
    · exact ⟨k, hlist, .inl ⟨y, hy⟩⟩
    · exact ⟨k, hlist, .inr ⟨hfails, hl⟩⟩
  · rintro ⟨k, hlist, ⟨y, hy⟩ | ⟨hfails, hl⟩⟩
    · exact ⟨_, _, _, hlist, Parser.optional_yields_iff.mpr (.inl ⟨y, hy, rfl⟩), rfl⟩
    · exact ⟨_, _, _, hlist, Parser.optional_yields_iff.mpr (.inr ⟨hfails, rfl, hl⟩), rfl⟩

theorem ended_failsAt_iff :
    (rules.parser (.thenSkip (.sepBy1 p separator) (.optional separator))).FailsAt input i severity ↔
      (rules.parser (.sepBy1 p separator)).FailsAt input i severity := by
  refine (Parser.seqWith_failsAt_iff (rules.parser_withPast (.optional separator))
    (rules.parser_backtracks (.sepBy1 p separator)) _).trans (or_iff_left ?_)
  rintro ⟨xs, k, hlist, hfails⟩
  obtain ⟨-, hstops⟩ := (rules.sepBy1_yields_iff p separator).mp hlist
  obtain ⟨-, hcommits⟩ := Parser.optional_failsAt_iff.mp hfails
  rcases hstops.separator_cases with ⟨y, j, hy⟩ | hmissing
  · exact hy.not_failsAt hcommits
  · exact absurd (hmissing.severity_eq hcommits) nofun

theorem ended_faultsAt_iff :
    (rules.parser (.thenSkip (.sepBy1 p separator) (.optional separator))).FaultsAt input i f ↔
      (rules.parser (.sepBy1 p separator)).FaultsAt input i f := by
  refine (Parser.seqWith_faultsAt_iff (rules.parser_withPast (.optional separator))
    (rules.parser_backtracks (.sepBy1 p separator)) _).trans (or_iff_left ?_)
  rintro ⟨xs, k, hlist, hfaulty⟩
  obtain ⟨-, hstops⟩ := (rules.sepBy1_yields_iff p separator).mp hlist
  have hseparator := Parser.optional_faultsAt_iff.mp hfaulty
  rcases hstops.separator_cases with ⟨y, j, hy⟩ | hmissing
  · exact hy.not_faultsAt hseparator
  · exact hmissing.not_faultsAt hseparator

/-! ### All lists -/

theorem sepBy_yields_iff : (rules.parser (.sepBy p separator)).Yields input i xs k ↔
    (rules.parser (.sepBy1 p separator)).Yields input i xs k ∨
      (rules.parser p).FailsAt input i .recoverable ∧ xs = [] ∧ k = i :=
  (Parser.optionalOr_yields_iff []).trans
    (or_congr_right (and_congr_left' (rules.sepBy1_recoverable_iff p separator)))

theorem sepEndBy_yields_iff {l : Nat} :
    (rules.parser (.sepEndBy p separator)).Yields input i xs l ↔
      (∃ k, (rules.parser (.sepBy1 p separator)).Yields input i xs k ∧
        ((∃ y, (rules.parser separator).Yields input k y l) ∨
          (rules.parser separator).FailsAt input k .recoverable ∧ l = k)) ∨
      (rules.parser p).FailsAt input i .recoverable ∧ xs = [] ∧ l = i :=
  (Parser.optionalOr_yields_iff []).trans
    (or_congr (rules.ended_yields_iff p separator) (and_congr_left'
      ((rules.ended_failsAt_iff p separator).trans (rules.sepBy1_recoverable_iff p separator))))

/-- A separator after the last element does not change the elements. -/
theorem sepEndBy_elements_iff :
    (∃ l, (rules.parser (.sepEndBy p separator)).Yields input i xs l) ↔
      ∃ k, (rules.parser (.sepBy p separator)).Yields input i xs k := by
  constructor
  · rintro ⟨l, hl⟩
    rcases (rules.sepEndBy_yields_iff p separator).mp hl with ⟨k, hlist, -⟩ | hnone
    · exact ⟨k, (rules.sepBy_yields_iff p separator).mpr (.inl hlist)⟩
    · exact ⟨l, (rules.sepBy_yields_iff p separator).mpr (.inr hnone)⟩
  · rintro ⟨k, hk⟩
    rcases (rules.sepBy_yields_iff p separator).mp hk with hlist | hnone
    · obtain ⟨-, hstops⟩ := (rules.sepBy1_yields_iff p separator).mp hlist
      rcases hstops.separator_cases with ⟨y, l, hy⟩ | hmissing
      · exact ⟨l, (rules.sepEndBy_yields_iff p separator).mpr (.inl ⟨k, hlist, .inl ⟨y, hy⟩⟩)⟩
      · exact ⟨k, (rules.sepEndBy_yields_iff p separator).mpr
          (.inl ⟨k, hlist, .inr ⟨hmissing, rfl⟩⟩)⟩
    · exact ⟨k, (rules.sepEndBy_yields_iff p separator).mpr (.inr hnone)⟩

section

variable {list : Grammar S a (List α)}
  (h : list ∈ [.sepBy1 p separator, .sepBy p separator, .sepEndBy p separator])

include h

/-- All lists of the same elements and separators commit at the same places. -/
theorem lists_committed_iff : (rules.parser list).FailsAt input i .committed ↔
    (rules.parser (.sepBy1 p separator)).FailsAt input i .committed := by
  simp only [List.mem_cons, List.not_mem_nil, or_false] at h
  rcases h with rfl | rfl | rfl
  · exact Iff.rfl
  · exact (Parser.optionalOr_failsAt_iff []).trans (and_iff_right rfl)
  · exact ((Parser.optionalOr_failsAt_iff []).trans (and_iff_right rfl)).trans
      (rules.ended_failsAt_iff p separator)

/-- All lists of the same elements and separators are at fault at the same places. -/
theorem lists_fault_iff : (rules.parser list).FaultsAt input i f ↔
    (rules.parser (.sepBy1 p separator)).FaultsAt input i f := by
  simp only [List.mem_cons, List.not_mem_nil, or_false] at h
  rcases h with rfl | rfl | rfl
  · exact Iff.rfl
  · exact Parser.optionalOr_faultsAt_iff []
  · exact (Parser.optionalOr_faultsAt_iff []).trans (rules.ended_faultsAt_iff p separator)

end

/-- **Lists with separators.** An element is taken, and then separators with an element after each as
long as they lead forwards. The list is over where the separator or the element after it fails
recoverably, and ends in front of that separator. Where there is no first element, `sepBy1` fails
recoverably and the others, which never do, give the empty list. A list that may end in a separator has
the same elements, and takes the separator behind the last of them if it is there. All of them commit,
at their own place, wherever an element or a separator commits; and they are at fault only where one of
these is, or where a separator and an element take nothing. -/
theorem parser_separated (s : State a) :
    (∀ xs k, (∃ t, rules.parser (.sepBy1 p separator) s = .ok xs t ∧ t.index = k) ↔
      (rules.parser p).Separated (rules.parser separator) s.input s.index xs k ∧
        (rules.parser p).StopsAt (rules.parser separator) s.input k .recoverable) ∧
    (∀ xs k, (∃ t, rules.parser (.sepBy p separator) s = .ok xs t ∧ t.index = k) ↔
      (rules.parser p).Separated (rules.parser separator) s.input s.index xs k ∧
          (rules.parser p).StopsAt (rules.parser separator) s.input k .recoverable ∨
        (rules.parser p).FailsAt s.input s.index .recoverable ∧ xs = [] ∧ k = s.index) ∧
    (∀ xs l, (∃ t, rules.parser (.sepEndBy p separator) s = .ok xs t ∧ t.index = l) ↔
      (∃ k, ((rules.parser p).Separated (rules.parser separator) s.input s.index xs k ∧
            (rules.parser p).StopsAt (rules.parser separator) s.input k .recoverable) ∧
          ((∃ y, (rules.parser separator).Yields s.input k y l) ∨
            (rules.parser separator).FailsAt s.input k .recoverable ∧ l = k)) ∨
        (rules.parser p).FailsAt s.input s.index .recoverable ∧ xs = [] ∧ l = s.index) ∧
    (∀ xs, (∃ t, rules.parser (.sepEndBy p separator) s = .ok xs t) ↔
      ∃ t, rules.parser (.sepBy p separator) s = .ok xs t) ∧
    ((∃ t, rules.parser (.sepBy1 p separator) s = .fail .recoverable t) ↔
      (rules.parser p).FailsAt s.input s.index .recoverable) ∧
    (∀ t, rules.parser (.sepBy p separator) s ≠ .fail .recoverable t) ∧
    (∀ t, rules.parser (.sepEndBy p separator) s ≠ .fail .recoverable t) ∧
    ∀ list ∈ [.sepBy1 p separator, .sepBy p separator, .sepEndBy p separator],
      ((∃ t, rules.parser list s = .fail .committed t) ↔
        (rules.parser p).FailsAt s.input s.index .committed ∨ ∃ xs k,
          (rules.parser p).Separated (rules.parser separator) s.input s.index xs k ∧
            (rules.parser p).StopsAt (rules.parser separator) s.input k .committed) ∧
      (∀ severity t, rules.parser list s = .fail severity t → t.index = s.index) ∧
      ∀ f, rules.parser list s = .fault f ↔
        (rules.parser p).FaultsAt s.input s.index f ∨ ∃ xs k,
          (rules.parser p).Separated (rules.parser separator) s.input s.index xs k ∧
            (rules.parser p).BreaksAt (rules.parser separator) s.input k f := by
  have hfree {γ : Type} (g : Grammar S a γ) : (rules.parser g).HistoryFree := rules.parser_withPast g
  have hsepBy1 {xs : List α} {k : Nat} :
      (rules.parser (.sepBy1 p separator)).Yields s.input s.index xs k ↔ _ :=
    rules.sepBy1_yields_iff p separator
  refine ⟨fun xs k => (hfree _).yields_iff.trans hsepBy1, fun xs k => ?_, fun xs l => ?_,
    fun xs => ?_, ?_, fun t ht => ?_, fun t ht => ?_, fun list hlist => ⟨?_, ?_, fun f => ?_⟩⟩
  · exact ((hfree _).yields_iff.trans (rules.sepBy_yields_iff p separator)).trans
      (or_congr_left hsepBy1)
  · exact ((hfree _).yields_iff.trans (rules.sepEndBy_yields_iff p separator)).trans
      (or_congr_left (exists_congr fun k => and_congr_left' hsepBy1))
  · exact ((hfree _).exists_yields_iff.trans (rules.sepEndBy_elements_iff p separator)).trans
      (hfree _).exists_yields_iff.symm
  · exact (hfree _).failsAt_iff.trans (rules.sepBy1_recoverable_iff p separator)
  · have hfails := (hfree _).failsAt_iff.mp ⟨t, ht⟩
    exact absurd ((Parser.optionalOr_failsAt_iff []).mp hfails).1 nofun
  · have hfails := (hfree _).failsAt_iff.mp ⟨t, ht⟩
    exact absurd ((Parser.optionalOr_failsAt_iff []).mp hfails).1 nofun
  · exact (((hfree _).failsAt_iff.trans (rules.lists_committed_iff p separator hlist)).trans
      (rules.sepBy1_failsAt_iff p separator)).trans (or_congr_right (and_iff_right rfl))
  · exact fun severity t ht => ((rules.parser_backtracks list).fail ht).2
  · exact ((hfree _).faultsAt_iff.trans (rules.lists_fault_iff p separator hlist)).trans
      (rules.sepBy1_faultsAt_iff p separator)

end Rules

section

/-- Two pairs with a comma between them and one behind. -/
def listedPairs : State .text :=
  { input := ['a', 'b', ',', 'a', 'b', ','] }

/-- A pair, a comma and half a pair. -/
def brokenList : State .text :=
  { input := ['a', 'b', ',', 'a', 'c'] }

/-- The comma behind two pairs is left where it stands or is taken with them; half a pair behind one
makes any list commit. -/
theorem strictPairs_separated :
    (∃ t, closedRules.parser (.sepBy strictPair (letter ',')) listedPairs = .ok ['b', 'b'] t ∧
      t.index = 5) ∧
    (∃ t, closedRules.parser (.sepEndBy strictPair (letter ',')) listedPairs = .ok ['b', 'b'] t ∧
      t.index = 6) ∧
    Grammar.sepEndBy strictPair (letter ',') ∈ [.sepBy1 strictPair (letter ','),
      .sepBy strictPair (letter ','), .sepEndBy strictPair (letter ',')] ∧
    ∃ t, closedRules.parser (.sepEndBy strictPair (letter ',')) brokenList = .fail .committed t := by
  obtain ⟨-, hsepBy, hsepEndBy, -⟩ :=
    closedRules.parser_separated strictPair (letter ',') listedPairs
  obtain ⟨-, -, -, -, -, -, -, hlists⟩ :=
    closedRules.parser_separated strictPair (letter ',') brokenList
  have hpairs : (closedRules.parser strictPair).Separated (closedRules.parser (letter ','))
      listedPairs.input 0 ['b', 'b'] 5 :=
    .intro ⟨_, rfl, rfl⟩ (.next ⟨_, rfl, rfl⟩ ⟨_, rfl, rfl⟩ (show 2 < 5 by decide) (.none 5))
  have hover : (closedRules.parser strictPair).StopsAt (closedRules.parser (letter ','))
      listedPairs.input 5 .recoverable :=
    .element ⟨_, rfl, rfl⟩ ⟨_, rfl⟩
  have hbroken : (closedRules.parser strictPair).StopsAt (closedRules.parser (letter ','))
      brokenList.input 2 .committed :=
    .element ⟨_, rfl, rfl⟩ ⟨_, rfl⟩
  have hmember : Grammar.sepEndBy strictPair (letter ',') ∈ [.sepBy1 strictPair (letter ','),
      .sepBy strictPair (letter ','), .sepEndBy strictPair (letter ',')] :=
    .tail _ (.tail _ (.head _))
  exact ⟨(hsepBy _ _).mpr (.inl ⟨hpairs, hover⟩),
    (hsepEndBy _ _).mpr (.inl ⟨5, ⟨hpairs, hover⟩, .inl ⟨_, _, rfl, rfl⟩⟩), hmember,
    (hlists _ hmember).1.mpr (.inr ⟨_, 2, .intro ⟨_, rfl, rfl⟩ (.none 2), hbroken⟩)⟩

end

end Descent
