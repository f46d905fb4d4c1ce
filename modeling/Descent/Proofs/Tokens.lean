import Descent.Proofs.Backtracking
import Descent.Proofs.Built

/-!
Where tokens lie.

A tokenizer takes its token from where it starts to where it stops, and the token says so itself
(`Parser.CutsOut`). A lexer therefore only finds tokens that begin at or after its own beginning
(`Parser.lexer_token_start`); and it never fails in a way that lets alternatives be tried, since it
just finds fewer tokens (`Parser.lexer_ne_recoverable`).
-/

namespace Descent

/-- A token that is the stretch of text between two states. -/
structure Token.IsBetween (token : Token) (s t : State .text) : Prop where
  start : token.start = s.index
  stop : token.stop = t.index
  text : t.slice? s.index t.index = some token.text.toList

namespace Parser

/-- A parser whose tokens are what it takes. -/
def CutsOut (p : Parser .text Token) : Prop :=
  ∀ s token t, p s = .ok token t → token.IsBetween s t

namespace CutsOut

variable {α : Type} {p q : Parser .text Token}

theorem refuse (message : String) : CutsOut (Parser.refuse message) :=
  nofun

/-- Any parser that is made a token by `Grammar.tokenize`. -/
theorem tokenize (kind : α → List Char → TokenKind) (r : Parser .text α) :
    CutsOut (Parser.spanned
      (fun x start stop text => ⟨start, stop, kind x text, String.ofList text⟩) r) := by
  intro s token t h
  cases hr : r s with
  | ok x u =>
    cases hslice : u.slice? s.index u.index with
    | some text =>
      rw [spanned_ok hr hslice] at h
      cases h
      exact ⟨rfl, rfl, by rw [hslice, String.toList_ofList]⟩
    | none => rw [spanned_out hr hslice] at h; cases h
  | fail severity u => rw [spanned_fail hr] at h; cases h
  | fault g => rw [spanned_fault hr] at h; cases h

theorem cut (stop : Nat) (kind : String → TokenKind) : CutsOut (Parser.cut stop kind) := by
  intro s token t h
  cases hslice : s.slice? s.index stop with
  | some chars =>
    rw [cut_ok hslice] at h
    cases h
    refine ⟨rfl, rfl, ?_⟩
    rw [String.toList_ofList]
    exact hslice
  | none => rw [cut_out hslice] at h; cases h

theorem terminal (lexicon : Lexicon) {words : Parser .text Unit} (hwords : words.Backtracks) :
    CutsOut (Parser.terminal lexicon words) := by
  intro s token t h
  by_cases hs : s.input.length < s.index ∧ lexicon.operators ≠ []
  · rw [terminal_out hs.1 hs.2] at h; cases h
  cases hscan : Parser.scanWord words s with
  | error g => rw [terminal_fault hs hscan] at h; cases h
  | ok scanned =>
    obtain ⟨stop, u⟩ := scanned
    obtain ⟨-, hindex⟩ := Backtracks.scanWord hwords hscan
    have moved {token : Token} (hb : token.IsBetween u t) : token.IsBetween s t :=
      ⟨hb.start.trans hindex, hb.stop, hindex ▸ hb.text⟩
    rcases terminal_scanned hs hscan with ⟨-, -, h'⟩ | ⟨n, -, -, h'⟩ | ⟨operator, -, -, h'⟩
    · rw [h'] at h; cases h
    · rw [h'] at h; exact moved (cut n _ u token t h)
    · rw [h'] at h; exact moved (cut _ _ u token t h)

/-- The second parser starts where the first one did, since the index is set back. -/
theorem orElse (hp : p.CutsOut) (hq : q.CutsOut) : CutsOut (Parser.orElse p q) := by
  intro s token t h
  cases hps : p s with
  | ok x u => rw [orElse_ok hps] at h; exact hp s token t (hps.trans h)
  | fail severity u =>
    cases severity with
    | recoverable =>
      rw [orElse_recoverable hps] at h
      have hb := hq _ token t h
      exact ⟨hb.start, hb.stop, hb.text⟩
    | committed => rw [orElse_committed hps] at h; cases h
  | fault g => rw [orElse_fault hps] at h; cases h

theorem atomic (hp : p.CutsOut) : CutsOut (Parser.atomic p) := by
  intro s token t h
  cases hps : p { s with mark := s.index } with
  | ok x u =>
    rw [atomic_ok hps] at h
    cases h
    have hb := hp _ _ u hps
    exact ⟨hb.start, hb.stop, hb.text⟩
  | fail severity u =>
    cases severity with
    | recoverable =>
      by_cases hmark : s.index < u.mark
      · rw [atomic_consumed hps hmark] at h; cases h
      · rw [atomic_untouched hps hmark] at h; cases h
    | committed => rw [atomic_committed hps] at h; cases h
  | fault g => rw [atomic_fault hps] at h; cases h

theorem label (name : String) (hp : p.CutsOut) : CutsOut (Parser.label name p) := by
  intro s token t h
  cases hps : p (s.dropFailure.note (.enter name)) with
  | ok x u =>
    rw [label_ok hps] at h
    cases h
    have hb := hp _ _ u hps
    exact ⟨hb.start, hb.stop, hb.text⟩
  | fail severity u =>
    by_cases hbeyond : u.failedBeyond s.index = true
    · rw [label_beyond hps hbeyond] at h; cases h
    · rw [label_named hps hbeyond] at h; cases h
  | fault g => rw [label_fault hps] at h; cases h

theorem traced (name : String) (render : Token → String) (hp : p.CutsOut) :
    CutsOut (Parser.traced name render p) := by
  intro s token t h
  cases hps : p (s.note (.enter name)) with
  | ok x u =>
    rw [traced_ok hps] at h
    cases h
    have hb := hp _ _ u hps
    exact ⟨hb.start, hb.stop, hb.text⟩
  | fail severity u => rw [traced_fail hps] at h; cases h
  | fault g => rw [traced_fault hps] at h; cases h

end CutsOut

/-! ## Runs that cannot fail recoverably -/

section

variable {a : Alphabet} {α β γ : Type}

/-- A parser after which no alternative is ever tried. -/
def NeverRecoverable (p : Parser a α) : Prop :=
  ∀ s t, p s ≠ .fail .recoverable t

theorem iterate_ne_recoverable (p : Parser a α) (n : Nat) : (iterate p n).NeverRecoverable := by
  induction n with
  | zero => exact fun _ _ => nofun
  | succ n ih =>
    intro s u
    cases h : p s with
    | ok x t =>
      by_cases hindex : t.index = s.index
      · rw [iterate_stuck h hindex]; exact nofun
      · rw [iterate_moved h hindex]
        have ht := ih t
        cases h' : iterate p n t with
        | ok xs v => exact nofun
        | fail severity v =>
          rintro ⟨⟩
          exact ht _ h'
        | fault g => exact nofun
    | fail severity t =>
      cases severity with
      | recoverable => rw [iterate_recoverable h]; exact nofun
      | committed => rw [iterate_committed h]; exact nofun
    | fault g => rw [iterate_fault h]; exact nofun

theorem many_ne_recoverable (p : Parser a α) : (many p).NeverRecoverable := by
  intro s u
  have hs := iterate_ne_recoverable p (s.input.length - s.index + 1) s
  cases h : iterate p (s.input.length - s.index + 1) s with
  | ok xs t => rw [many_ok h]; exact nofun
  | fail severity t =>
    rw [many_fail h]
    rintro ⟨⟩
    exact hs t h
  | fault g => rw [many_fault h]; exact nofun

theorem optional_ne_recoverable (p : Parser a α) : (optional p).NeverRecoverable := by
  intro s u
  rcases optional_cases p s with ⟨x, t, -, h⟩ | ⟨t, -, h⟩ | ⟨t, -, h⟩ | ⟨g, -, h⟩ <;>
    rw [h] <;> exact nofun

theorem NeverRecoverable.seqWith {p : Parser a α} {q : Parser a β} (hp : p.NeverRecoverable)
    (hq : q.NeverRecoverable) (f : α → β → γ) : (seqWith f p q).NeverRecoverable := by
  intro s v
  cases h : p s with
  | ok x t =>
    cases h' : q t with
    | ok y u => rw [seqWith_ok_ok h h']; exact nofun
    | fail severity u =>
      rw [seqWith_ok_fail h h']
      rintro ⟨⟩
      exact hq t u h'
    | fault g => rw [seqWith_ok_fault h h']; exact nofun
  | fail severity t =>
    rw [seqWith_fail h]
    rintro ⟨⟩
    exact hp s t h
  | fault g => rw [seqWith_fault h]; exact nofun

end

/-! ## Several tokens -/

/-- Each value of a repetition was found somewhere on the way. -/
theorem exists_of_mem_iterate {a : Alphabet} {α : Type} {p : Parser a α} (hp : p.Backtracks)
    (n : Nat) {s u : State a} {xs : List α} (h : iterate p n s = .ok xs u) :
    ∀ x ∈ xs, ∃ v t, s.Follows v ∧ p v = .ok x t := by
  induction n generalizing s xs with
  | zero => cases h
  | succ n ih =>
    cases hps : p s with
    | ok first t =>
      by_cases hindex : t.index = s.index
      · rw [iterate_stuck hps hindex] at h; cases h
      · rw [iterate_moved hps hindex] at h
        cases hrest : iterate p n t with
        | ok rest v =>
          rw [hrest] at h
          cases h
          intro x hx
          rcases List.mem_cons.mp hx with rfl | hx
          · exact ⟨s, t, .of_eq rfl rfl, hps⟩
          · obtain ⟨v, w, hv, hw⟩ := ih hrest x hx
            exact ⟨v, w, (hp.ok hps).trans hv, hw⟩
        | fail severity v => rw [hrest] at h; cases h
        | fault g => rw [hrest] at h; cases h
    | fail severity t =>
      cases severity with
      | recoverable => rw [iterate_recoverable hps] at h; cases h; exact nofun
      | committed => rw [iterate_committed hps] at h; cases h
    | fault g => rw [iterate_fault hps] at h; cases h

end Parser

variable {S : Scope} {resolve : Resolver S}

/-- The tokens of a tokenizer are what it takes. -/
theorem Grammar.IsTokenizer.cutsOut (hresolve : ∀ x, (resolve x).Backtracks)
    {g : Grammar S .text Token} (hg : g.IsTokenizer) : (g.run resolve).CutsOut := by
  induction hg with
  | literal quote hg =>
    obtain ⟨α, kind, p, rfl⟩ := exists_tokenize_of_mem hg
    exact .tokenize kind _
  | registry registry => exact .terminal _ (registry.words.run_backtracks hresolve)
  | orElse _ _ ihp ihq => exact .orElse ihp ihq
  | choice _ ih =>
    exact choice_induction (motive := fun g => (g.run resolve).CutsOut) (.refuse _)
      (fun _ _ hp hq => .orElse hp hq) ih
  | label name _ ih => exact .label name ih
  | traced name render _ ih => exact .traced name render ih
  | atomic _ ih => exact .atomic ih

namespace Grammar

variable {tokenizer : Grammar S .text Token} {delimiter : Grammar S .text Unit}

/-- A lexer stops where it finds no more tokens; only what is committed makes it fail. -/
theorem lexer_ne_recoverable (tokenizer : Grammar S .text Token)
    (delimiter : Grammar S .text Unit) :
    ((lexer tokenizer delimiter).run resolve).NeverRecoverable :=
  (Parser.optional_ne_recoverable _).seqWith (Parser.many_ne_recoverable _) _

/-- Each token of a lexer is one that its tokenizer found somewhere on the way. -/
theorem exists_of_mem_lexer (hresolve : ∀ x, (resolve x).Backtracks) {s u : State .text}
    {tokens : List Token} (h : (lexer tokenizer delimiter).run resolve s = .ok tokens u) :
    ∀ token ∈ tokens, ∃ v t, s.Follows v ∧ tokenizer.run resolve v = .ok token t := by
  obtain ⟨_, t, _, hfirst, hmany, rfl⟩ := Parser.exists_of_seqWith_ok h
  have hstart := ((optional delimiter).run_backtracks hresolve).ok hfirst
  have hitem := (thenSkip tokenizer (optional delimiter)).run_backtracks hresolve
  intro token htoken
  obtain ⟨v, w, hv, hw⟩ :=
    Parser.exists_of_mem_iterate hitem _ (Parser.iterate_of_many_ok hmany) token htoken
  obtain ⟨_, x, _, htaken, -, rfl⟩ := Parser.exists_of_seqWith_ok hw
  exact ⟨v, x, hstart.trans hv, htaken⟩

/-- A lexer only finds tokens that begin where it begins or later. -/
theorem lexer_token_start (hresolve : ∀ x, (resolve x).Backtracks)
    (htokenizer : tokenizer.IsTokenizer) {s u : State .text} {tokens : List Token}
    (h : (lexer tokenizer delimiter).run resolve s = .ok tokens u) :
    ∀ token ∈ tokens, s.index ≤ token.start := by
  intro token htoken
  obtain ⟨v, t, hv, htaken⟩ := exists_of_mem_lexer hresolve h token htoken
  rw [(htokenizer.cutsOut hresolve _ _ _ htaken).start]
  exact hv.index_le

end Grammar

end Descent
