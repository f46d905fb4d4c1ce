import Descent.Proofs.Range

/-!
How a tokenizer ends.

It finds a token that is more than nothing; or it fails, having consumed nothing, and alternatives
may be tried (`Outcome.IsToken`). So an `atomic` around a tokenizer never commits, and a lexer over it
is not stopped by it. A tokenizer is at fault only if one of its scanners of words is
(`Grammar.IsTokenizer.tokenizes`).
-/

namespace Descent

/-- An outcome of a tokenizer that starts in a state. It is at fault only if it may be. -/
inductive Outcome.IsToken (faulty : Prop) (s : State .text) : Outcome .text Token → Prop where
  | ok {token : Token} {t : State .text} (index_lt : s.index < t.index) :
      IsToken faulty s (.ok token t)
  | fail {t : State .text} (mark_le : t.mark ≤ max s.mark s.index) :
      IsToken faulty s (.fail .recoverable t)
  | fault {f : Fault} (h : faulty) : IsToken faulty s (.fault f)

/-- Only the place counts, and a mark that is not past it nor past the one there was. -/
theorem Outcome.IsToken.congr {faulty : Prop} {s t : State .text} {outcome : Outcome .text Token}
    (h : outcome.IsToken faulty t) (hindex : t.index = s.index)
    (hmark : t.mark ≤ max s.mark s.index) : outcome.IsToken faulty s := by
  cases h with
  | ok index_lt => exact .ok (hindex ▸ index_lt)
  | fail mark_le =>
    exact .fail (Nat.le_trans mark_le (Nat.max_le.mpr ⟨hmark, hindex ▸ Nat.le_max_right _ _⟩))
  | fault h => exact .fault h

namespace Parser

variable {α : Type} {faulty : Prop} {text : List Char}

/-- A parser that ends as a tokenizer does wherever it starts in a text. -/
def Tokenizes (faulty : Prop) (text : List Char) (p : Parser .text Token) : Prop :=
  ∀ s, s.input = text → s.index ≤ text.length → (p s).IsToken faulty s

namespace Tokenizes

variable {p q : Parser .text Token} {s t : State .text} {token : Token} {severity : Severity}
  {f : Fault}

theorem index_lt (hp : p.Tokenizes faulty text) (h : p s = .ok token t) (hs : s.input = text)
    (hi : s.index ≤ text.length) : s.index < t.index := by
  have hend := hp s hs hi
  rw [h] at hend
  cases hend with
  | ok index_lt => exact index_lt

theorem recoverable (hp : p.Tokenizes faulty text) (h : p s = .fail severity t)
    (hs : s.input = text) (hi : s.index ≤ text.length) :
    severity = .recoverable ∧ t.mark ≤ max s.mark s.index := by
  have hend := hp s hs hi
  rw [h] at hend
  cases hend with
  | fail mark_le => exact ⟨rfl, mark_le⟩

theorem fault (hp : p.Tokenizes faulty text) (h : p s = .fault f) (hs : s.input = text)
    (hi : s.index ≤ text.length) : faulty := by
  have hend := hp s hs hi
  rw [h] at hend
  cases hend with
  | fault h => exact h

/-! ## Single tokens -/

theorem refuse (message : String) : Tokenizes faulty text (Parser.refuse message) :=
  fun _ _ _ => .fail (Nat.le_max_left _ _)

/-- A scan that takes something where it matches, made a token. -/
theorem tokenize {matcher : List Char → Nat → Option (Nat × α)} (name : String)
    (kind : α → List Char → TokenKind)
    (hmatcher : ∀ text start stop value, start ≤ text.length →
      matcher text start = some (stop, value) → start < stop ∧ stop ≤ text.length) :
    Tokenizes faulty text (Parser.spanned
      (fun x start stop text => ⟨start, stop, kind x text, String.ofList text⟩)
      (Parser.scan matcher name)) := by
  intro s hs hi
  rw [← hs] at hi
  cases hmatch : matcher s.input s.index with
  | none =>
    have hscan : Parser.scan matcher name s = .fail .recoverable (s.expect [name]) := by
      simp only [Parser.scan, hmatch]
    rw [spanned_fail hscan]
    exact .fail (Nat.le_max_left _ _)
  | some found =>
    obtain ⟨stop, value⟩ := found
    obtain ⟨hlt, hstop⟩ := hmatcher _ _ _ _ hi hmatch
    have hle : s.index ≤ stop ∧ stop ≤ s.input.length := ⟨Nat.le_of_lt hlt, hstop⟩
    have hscan : Parser.scan matcher name s = .ok value (s.moveTo stop) := by
      simp only [Parser.scan, hmatch, if_pos hle]
    obtain ⟨chars, hslice⟩ := InRange.exists_slice (State.Follows.moveTo hle.1 hle.2) hi
    rw [spanned_ok hscan hslice]
    exact .ok hlt

theorem cut {stop : Nat} (kind : String → TokenKind) (hlt : s.index < stop)
    (hstop : stop ≤ s.input.length) : (Parser.cut stop kind s).IsToken faulty s := by
  rw [cut_ok (if_pos ⟨Nat.le_of_lt hlt, hstop⟩)]
  exact .ok hlt

theorem scanWord_mark {words : Parser .text Unit} {stop : Option Nat}
    (h : Parser.scanWord words s = .ok (stop, t)) : t.mark = s.mark := by
  cases h' : words s.dropFailure with
  | ok x u => rw [scanWord_ok h'] at h; cases h; rfl
  | fail severity u => rw [scanWord_fail h'] at h; cases h; rfl
  | fault g => rw [scanWord_fault h'] at h; cases h

theorem scanWord_error {words : Parser .text Unit} (h : Parser.scanWord words s = .error f) :
    words s.dropFailure = .fault f := by
  cases h' : words s.dropFailure with
  | ok x u => rw [scanWord_ok h'] at h; cases h
  | fail severity u => rw [scanWord_fail h'] at h; cases h
  | fault g => rw [scanWord_fault h'] at h; cases h; rfl

/-- A word is found only if it is more than nothing, an operator is never empty, and the look for a
word leaves the mark alone. -/
theorem terminal (lexicon : Lexicon) {words : Parser .text Unit} (hb : words.Backtracks)
    (hfault : ∀ s f, s.input = text → s.index ≤ text.length → words s = .fault f → faulty) :
    Tokenizes faulty text (Parser.terminal lexicon words) := by
  intro s hs hi
  have hstart : ¬ (s.input.length < s.index ∧ lexicon.operators ≠ []) :=
    fun h => Nat.not_lt.mpr hi (hs ▸ h.1)
  cases hscan : Parser.scanWord words s with
  | error g =>
    rw [terminal_fault hstart hscan]
    exact .fault (hfault s.dropFailure g hs hi (scanWord_error hscan))
  | ok scanned =>
    obtain ⟨stop, t⟩ := scanned
    obtain ⟨hinput, hindex⟩ := Backtracks.scanWord hb hscan
    have hmark := scanWord_mark hscan
    have moved {outcome : Outcome .text Token} (h : outcome.IsToken faulty t) :
        outcome.IsToken faulty s :=
      h.congr hindex (hmark ▸ Nat.le_max_left _ _)
    rw [← hs] at hi
    rcases terminal_scanned hstart hscan with ⟨-, -, h'⟩ | ⟨n, rfl, -, h'⟩ | ⟨operator, hop, -, h'⟩
    · rw [h']
      exact moved (.fail (Nat.le_max_left _ _))
    · have hword := InRange.scanWord_bounds hb hi hscan
      rw [h']
      exact moved (cut _ (hindex ▸ hword.1) (hinput ▸ hword.2))
    · have hpos := lexicon.operator_length_pos (Lexicon.longestOperator?_longest hop).1
      have hlength := Lexicon.longestOperator?_length_le hop
      rw [List.length_drop] at hlength
      rw [h']
      rw [← hinput, ← hindex] at hi
      exact moved (cut _ (by omega) (by omega))

/-! ## Composed tokenizers -/

theorem orElse (hb : p.Backtracks) (hp : p.Tokenizes faulty text)
    (hq : q.Tokenizes faulty text) : Tokenizes faulty text (Parser.orElse p q) := by
  intro s hs hi
  have hend := hp s hs hi
  cases h : p s with
  | ok token t => rw [orElse_ok h]; rw [h] at hend; exact hend
  | fail severity t =>
    obtain ⟨rfl, hmark⟩ := hp.recoverable h hs hi
    obtain ⟨hinput, hindex⟩ := hb.fail h
    rw [orElse_recoverable h]
    exact (hq (t.restore s.index) (hinput.trans hs) hi).congr rfl hmark
  | fault g => rw [orElse_fault h]; exact .fault (hp.fault h hs hi)

theorem label (name : String) (hp : p.Tokenizes faulty text) :
    Tokenizes faulty text (Parser.label name p) := by
  intro s hs hi
  cases h : p (s.dropFailure.note (.enter name)) with
  | ok token t =>
    have hlt := hp.index_lt h hs hi
    rw [label_ok h]
    exact .ok hlt
  | fail severity t =>
    obtain ⟨rfl, hmark⟩ := hp.recoverable h hs hi
    by_cases hbeyond : t.failedBeyond s.index = true
    · rw [label_beyond h hbeyond]; exact .fail hmark
    · rw [label_named h hbeyond]; exact .fail hmark
  | fault g => rw [label_fault h]; exact .fault (hp.fault h hs hi)

theorem traced (name : String) (render : Token → String) (hp : p.Tokenizes faulty text) :
    Tokenizes faulty text (Parser.traced name render p) := by
  intro s hs hi
  cases h : p (s.note (.enter name)) with
  | ok token t =>
    have hlt := hp.index_lt h hs hi
    rw [traced_ok h]
    exact .ok hlt
  | fail severity t =>
    obtain ⟨rfl, hmark⟩ := hp.recoverable h hs hi
    rw [traced_fail h]
    exact .fail hmark
  | fault g => rw [traced_fault h]; exact .fault (hp.fault h hs hi)

/-- With the mark set to the place, a failure that has consumed nothing leaves it there. -/
theorem atomic (hp : p.Tokenizes faulty text) : Tokenizes faulty text (Parser.atomic p) := by
  intro s hs hi
  cases h : p { s with mark := s.index } with
  | ok token t =>
    have hlt := hp.index_lt h hs hi
    rw [atomic_ok h]
    exact .ok hlt
  | fail severity t =>
    obtain ⟨rfl, hmark⟩ := hp.recoverable h hs hi
    have hplace : t.mark ≤ s.index := Nat.max_self s.index ▸ hmark
    rw [atomic_untouched h (Nat.not_lt.mpr hplace)]
    refine .fail (Nat.max_le.mpr ⟨?_, Nat.le_max_left _ _⟩)
    exact Nat.le_trans hplace (Nat.le_max_right _ _)
  | fault g =>
    rw [atomic_fault h]
    exact .fault (hp.fault h hs hi)

end Tokenizes

end Parser

/-! ## Grammars -/

namespace Grammar

variable {S : Scope} {a : Alphabet} {α : Type}

/-- The scanners of words that a tokenizer asks itself. -/
def wordScanners : {a : Alphabet} → {α : Type} → Grammar S a α → List (Grammar S .text Unit)
  | _, _, orElse p q => p.wordScanners ++ q.wordScanners
  | _, _, label _ p => p.wordScanners
  | _, _, traced _ _ p => p.wordScanners
  | _, _, atomic p => p.wordScanners
  | _, _, terminal _ words => [words]
  | _, _, _ => []

theorem wordScanners_foldl_orElse (gs : List (Grammar S a α)) (g : Grammar S a α) :
    (gs.foldl orElse g).wordScanners = g.wordScanners ++ gs.flatMap wordScanners := by
  induction gs generalizing g with
  | nil => simp
  | cons q rest ih => simp [ih, wordScanners]

/-- A choice asks all the scanners of words that its alternatives ask. -/
theorem wordScanners_subset_choice {gs : List (Grammar S a α)} {g : Grammar S a α}
    (hg : g ∈ gs) : g.wordScanners ⊆ (choice gs).wordScanners := by
  cases gs with
  | nil => cases hg
  | cons p rest =>
    intro words hwords
    unfold choice
    rw [wordScanners_foldl_orElse, List.mem_append]
    rcases List.mem_cons.mp hg with rfl | hg
    · exact .inl hwords
    · exact .inr (List.mem_flatMap.mpr ⟨g, hg, hwords⟩)

/-- A literal is a scan that takes something and does not go past the end. -/
theorem exists_scan_of_mem {quote : Char} {g : Grammar S .text Token}
    (hg : g ∈ literalTokenizers quote) :
    ∃ (α : Type) (kind : α → List Char → TokenKind) (matcher : List Char → Nat → Option (Nat × α))
      (name : String), g = tokenize kind (scan matcher name) ∧
      ∀ text start stop value, start ≤ text.length → matcher text start = some (stop, value) →
        start < stop ∧ stop ≤ text.length := by
  have ofPattern {p : Pattern} (hp : p.Standard) (hadvances : p.Advances) :
      ∀ (text : List Char) (start stop : Nat) (value : Unit), start ≤ text.length →
        (p.endAt text start).map (·, ()) = some (stop, value) →
          start < stop ∧ stop ≤ text.length := by
    intro text start stop value _ hmatch
    obtain ⟨stop', hstop, heq⟩ := Option.map_eq_some_iff.mp hmatch
    cases heq
    exact ⟨hadvances.endAt_lt hstop, (hp.fits.endAt_bounds hstop).2⟩
  simp only [literalTokenizers, List.mem_cons, List.not_mem_nil, or_false] at hg
  rcases hg with rfl | rfl | rfl | rfl | rfl | rfl | rfl | rfl | rfl
  · exact ⟨_, _, _, _, rfl, ofPattern .identifier (Pattern.advances_headThen _ _)⟩
  · exact ⟨_, _, _, _, rfl, ofPattern .integer (Pattern.advances_oneOrMore _)⟩
  · exact ⟨_, _, _, _, rfl, ofPattern .decimal Pattern.advances_decimal⟩
  · exact ⟨_, _, _, _, rfl,
      ofPattern .scientific (Pattern.advances_andThen Pattern.advances_decimal _)⟩
  · exact ⟨_, _, _, _, rfl, ofPattern .hexInteger (Pattern.advances_headThen _ _)⟩
  · exact ⟨_, _, _, _, rfl, ofPattern .octalInteger (Pattern.advances_headThen _ _)⟩
  · exact ⟨_, _, _, _, rfl, ofPattern .decimalInteger (Pattern.advances_headThen _ _)⟩
  · refine ⟨_, _, _, _, rfl, fun text start stop value _ hmatch => ?_⟩
    split at hmatch
    · rename_i hquoted
      cases hmatch
      exact ⟨Pattern.quotedEndAt_lt hquoted, (Pattern.quotedEndAt_bounds hquoted).2⟩
    · cases hmatch
  · refine ⟨_, _, _, _, rfl, fun text start stop value _ hmatch => ?_⟩
    obtain ⟨⟨stop', content⟩, hquoted, heq⟩ := Option.map_eq_some_iff.mp hmatch
    cases heq
    exact ⟨Pattern.quotedEndAt_lt hquoted, (Pattern.quotedEndAt_bounds hquoted).2⟩

/-- Tokenizers end as they should, and are at fault only where a scanner of words is. -/
theorem IsTokenizer.tokenizes {resolve : Resolver S} (hb : ∀ x, (resolve x).Backtracks)
    {faulty : Prop} {text : List Char} {g : Grammar S .text Token} (hg : g.IsTokenizer)
    (hwords : ∀ words ∈ g.wordScanners, ∀ s f, s.input = text → s.index ≤ text.length →
      words.run resolve s = .fault f → faulty) :
    (g.run resolve).Tokenizes faulty text := by
  induction hg with
  | literal quote hg =>
    obtain ⟨α, kind, matcher, name, rfl, hmatcher⟩ := exists_scan_of_mem hg
    exact .tokenize name kind hmatcher
  | registry registry =>
    exact .terminal _ (registry.words.run_backtracks hb) (hwords _ (.head _))
  | @orElse p q _ _ ihp ihq =>
    exact .orElse (p.run_backtracks hb)
      (ihp fun words h => hwords words (List.mem_append_left _ h))
      (ihq fun words h => hwords words (List.mem_append_right _ h))
  | choice _ ih =>
    exact (choice_induction
      (motive := fun g => (g.run resolve).Backtracks ∧ (g.run resolve).Tokenizes faulty text)
      ⟨.refuse _, .refuse _⟩ (fun _ _ hp hq => ⟨.orElse hp.1 hq.1, .orElse hp.1 hp.2 hq.2⟩)
      fun g hg => ⟨g.run_backtracks hb,
        ih g hg fun words h => hwords words (wordScanners_subset_choice hg h)⟩).2
  | label name _ ih => exact .label name (ih hwords)
  | traced name render _ ih => exact .traced name render (ih hwords)
  | atomic _ ih => exact .atomic (ih hwords)

end Grammar

end Descent
