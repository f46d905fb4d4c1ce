import Descent.Grammar.Rules

/-!
Runs that are watched.

A watched run keeps a log of every application of a parser, from the whole grammar down to its
operands and on through references: that it begins, and how it ends. Otherwise it is the run itself,
outcome and all (`Rules.watch_outcome`).

What must not follow and the scanner of words are only looked for: whatever becomes of them, there
and then it is made into something else. What happens inside such a look is logged as an aside.
-/

namespace Descent

/-- How an application ends, whatever it leaves. -/
inductive Ending where
  | success
  | failure (severity : Severity)
  | fault
deriving Repr, DecidableEq

/-- Something that happens in a run. -/
inductive Moment where
  /-- A parser is applied. -/
  | begins
  /-- Of the applications that have not ended the latest ends. -/
  | ends (ending : Ending)
  /-- Something happens inside a look. -/
  | aside (moment : Moment)
deriving Repr, DecidableEq

/-- How a run ended. -/
def Outcome.ending {a : Alphabet} {α : Type} : Outcome a α → Ending
  | ok _ _ => .success
  | fail severity _ => .failure severity
  | fault _ => .fault

/-- The outcome of a run and what happened in it, in order. -/
structure Watched (a : Alphabet) (α : Type) where
  outcome : Outcome a α
  log : List Moment := []

namespace Watched

variable {a b : Alphabet} {α β : Type}

/-- One run after another, which goes by how the first one ended. -/
def next (first : Watched b β) (rest : Outcome b β → Watched a α) : Watched a α where
  outcome := (rest first.outcome).outcome
  log := first.log ++ (rest first.outcome).log

end Watched

/-- A parser whose runs are watched. -/
abbrev Watcher (a : Alphabet) (α : Type) := State a → Watched a α

namespace Watcher

variable {a b : Alphabet} {α β γ : Type}

/-- What happens inside is all there is to one application. -/
def applied (inside : Watcher a α) : Watcher a α :=
  fun s =>
    { outcome := (inside s).outcome
      log := .begins :: (inside s).log ++ [.ends (inside s).outcome.ending] }

/-- The parser is only a look. -/
def asides (p : Watcher a α) : Watcher a α :=
  fun s => { outcome := (p s).outcome, log := (p s).log.map .aside }

/-- A parser without operands. -/
def leaf (p : Parser a α) : Watcher a α :=
  fun s => { outcome := p s }

/-- A parser that applies its operand once, from a state it makes of its own. -/
def once (combine : Parser b β → Parser a α) (start : State a → State b) (p : Watcher b β) :
    Watcher a α :=
  fun s => (p (start s)).next fun outcome => { outcome := combine (fun _ => outcome) s }

def seqWith (f : α → β → γ) (p : Watcher a α) (q : Watcher a β) : Watcher a γ :=
  fun s =>
    (p s).next fun first =>
      match first with
      | .ok _ t =>
        (q t).next fun second =>
          { outcome := Parser.seqWith f (fun _ => first) (fun _ => second) s }
      | .fail severity t => { outcome := .fail severity (t.restore s.index) }
      | .fault g => { outcome := .fault g }

def orElse (p q : Watcher a α) : Watcher a α :=
  fun s =>
    (p s).next fun first =>
      match first with
      | .fail .recoverable t => q (t.restore s.index)
      | outcome => { outcome }

def iterate (p : Watcher a α) : Nat → Watcher a (List α)
  | 0 => fun _ => { outcome := .fault .endlessRecursion }
  | n + 1 => fun s =>
    (p s).next fun first =>
      match first with
      | .ok x t =>
        if t.index = s.index then { outcome := .fault (.emptyRepetition s.index) }
        else (iterate p n t).next fun rest => { outcome := rest.map (x :: ·) }
      | .fail .recoverable t => { outcome := .ok [] (t.restore s.index) }
      | .fail .committed t => { outcome := .fail .committed t }
      | .fault g => { outcome := .fault g }

def many (p : Watcher a α) : Watcher a (List α) :=
  fun s =>
    (iterate p (s.input.length - s.index + 1) s).next fun outcome =>
      { outcome := Parser.attempt (fun _ => outcome) s }

def staged (grammar : Watcher .tokens α) (lexer : Watcher .text (List Token)) :
    Watcher .text α :=
  fun s =>
    (lexer s.dropFailure).next fun first =>
      match first with
      | .ok tokens t =>
        (grammar { input := tokens, events := t.events }).next fun second =>
          { outcome := Parser.staged (fun _ => second) (fun _ => first) s }
      | .fail severity t => { outcome := .fail severity { t with failure := s.failure } }
      | .fault g => { outcome := .fault g }

def terminal (lexicon : Lexicon) (words : Watcher .text Unit) : Watcher .text Token :=
  fun s =>
    if s.input.length < s.index ∧ lexicon.operators ≠ [] then { outcome := .fault .outOfRange }
    else once (Parser.terminal lexicon) (·.dropFailure) words.asides s

end Watcher

/-- What references mean while a grammar is watched. -/
abbrev WatchedResolver (S : Scope) := (x : S.Ref) → Watcher (S.alphabet x) (S.Value x)

variable {S : Scope}

/-- The watched parser of a grammar. -/
def Grammar.watch (resolve : WatchedResolver S) :
    {a : Alphabet} → {α : Type} → Grammar S a α → Watcher a α
  | _, _, item extract names => (Watcher.leaf (.item extract names)).applied
  | _, _, atEnd => (Watcher.leaf .atEnd).applied
  | _, _, pure value => (Watcher.leaf (.pure value)).applied
  | _, _, refuse message => (Watcher.leaf (.refuse message)).applied
  | _, _, silent severity => (Watcher.leaf (.silent severity)).applied
  | _, _, scan matcher name => (Watcher.leaf (.scan matcher name)).applied
  | _, _, map f p => (Watcher.once (.map f) (·) (watch resolve p)).applied
  | _, _, seqWith f p q => (Watcher.seqWith f (watch resolve p) (watch resolve q)).applied
  | _, _, orElse p q => (Watcher.orElse (watch resolve p) (watch resolve q)).applied
  | _, _, atomic p =>
    (Watcher.once .atomic (fun s => { s with mark := s.index }) (watch resolve p)).applied
  | _, _, peek p => (Watcher.once .peek (·) (watch resolve p)).applied
  | _, _, notFollowedBy p name =>
    (Watcher.once (.notFollowedBy · name) (·.dropFailure) (watch resolve p).asides).applied
  | _, _, many p => (Watcher.many (watch resolve p)).applied
  | _, _, label name p =>
    (Watcher.once (.label name) (·.dropFailure.note (.enter name)) (watch resolve p)).applied
  | _, _, traced name render p =>
    (Watcher.once (.traced name render) (·.note (.enter name)) (watch resolve p)).applied
  | _, _, spanned f p => (Watcher.once (.spanned f) (·) (watch resolve p)).applied
  | _, _, ref x => (resolve x).applied
  | _, _, staged grammar lexer =>
    (Watcher.staged (watch resolve grammar) (watch resolve lexer)).applied
  | _, _, terminal lexicon words => (Watcher.terminal lexicon (watch resolve words)).applied

/-- Watches the grammars that references stand for, so many of them inside one another. -/
def Bindings.watcher (bindings : Bindings S) : Nat → WatchedResolver S
  | 0 => fun x => Watcher.leaf (bindings.resolver 0 x)
  | depth + 1 => fun x =>
    match bindings.lookup? x with
    | none => Watcher.leaf fun _ => .fault .unboundReference
    | some grammar => grammar.watch (bindings.watcher depth)

/-- The watched parser of a grammar under rules. -/
def Rules.watch {a : Alphabet} {α : Type} (rules : Rules S) (grammar : Grammar S a α) :
    Watcher a α :=
  grammar.watch (rules.bindings.watcher rules.depth)

/-! ## Watching changes nothing -/

namespace Watcher

variable {a b : Alphabet} {α β γ : Type}

/-- The watched parser ends as the parser does. -/
def Watches (watched : Watcher a α) (p : Parser a α) : Prop :=
  ∀ s, (watched s).outcome = p s

namespace Watches

variable {p : Parser a α} {watched : Watcher a α}

theorem applied (h : watched.Watches p) : watched.applied.Watches p := h

theorem asides (h : watched.Watches p) : watched.asides.Watches p := h

theorem leaf (p : Parser a α) : (Watcher.leaf p).Watches p :=
  fun _ => rfl

/-- The operand has to be one that is only ever applied to that state. -/
theorem once {combine : Parser a α → Parser b β} {start : State b → State a}
    (h : watched.Watches p) (hstart : ∀ s, combine (fun _ => p (start s)) s = combine p s) :
    (Watcher.once combine start watched).Watches (combine p) := by
  intro s
  unfold Watcher.once Watched.next
  rw [h]
  exact hstart s

theorem seqWith (f : α → β → γ) {q : Parser a β} {watched' : Watcher a β}
    (h : watched.Watches p) (h' : watched'.Watches q) :
    (Watcher.seqWith f watched watched').Watches (Parser.seqWith f p q) := by
  intro s
  unfold Watcher.seqWith Watched.next
  rw [h]
  cases hp : p s with
  | ok x t =>
    have hq := h' t
    simp only [hq, Parser.seqWith, Parser.attempt, hp, Outcome.bind_ok]
  | fail severity t => simp only [Parser.seqWith, Parser.attempt, hp, Outcome.bind_fail]
  | fault g => simp only [Parser.seqWith, Parser.attempt, hp, Outcome.bind_fault]

theorem orElse {q : Parser a α} {watched' : Watcher a α} (h : watched.Watches p)
    (h' : watched'.Watches q) : (Watcher.orElse watched watched').Watches (Parser.orElse p q) := by
  intro s
  unfold Watcher.orElse Watched.next Parser.orElse
  rw [h]
  cases p s with
  | ok x t => rfl
  | fail severity t =>
    cases severity with
    | recoverable => exact h' (t.restore s.index)
    | committed => rfl
  | fault g => rfl

theorem iterate (h : watched.Watches p) (n : Nat) :
    (Watcher.iterate watched n).Watches (Parser.iterate p n) := by
  induction n with
  | zero => exact fun _ => rfl
  | succ n ih =>
    intro s
    unfold Watcher.iterate Watched.next Parser.iterate
    rw [h]
    cases p s with
    | ok x t =>
      by_cases hindex : t.index = s.index
      · simp only [if_pos hindex]
      · simp only [if_neg hindex, ih t]
    | fail severity t => cases severity <;> rfl
    | fault g => rfl

theorem many (h : watched.Watches p) : (Watcher.many watched).Watches (Parser.many p) := by
  intro s
  unfold Watcher.many Watched.next Parser.many Parser.attempt
  rw [h.iterate]

theorem staged {grammar : Parser .tokens α} {lexer : Parser .text (List Token)}
    {watched : Watcher .tokens α} {watched' : Watcher .text (List Token)}
    (h : watched.Watches grammar) (h' : watched'.Watches lexer) :
    (Watcher.staged watched watched').Watches (Parser.staged grammar lexer) := by
  intro s
  unfold Watcher.staged Watched.next Parser.staged
  rw [h']
  cases lexer s.dropFailure with
  | ok tokens t => simp only [h { input := tokens, events := t.events }]
  | fail severity t => rfl
  | fault g => rfl

theorem terminal (lexicon : Lexicon) {words : Parser .text Unit} {watched : Watcher .text Unit}
    (h : watched.Watches words) :
    (Watcher.terminal lexicon watched).Watches (Parser.terminal lexicon words) := by
  intro s
  unfold Watcher.terminal
  by_cases hs : s.input.length < s.index ∧ lexicon.operators ≠ []
  · rw [if_pos hs]
    unfold Parser.terminal
    rw [if_pos hs]
  · rw [if_neg hs]
    have hlook : (Watcher.once (Parser.terminal lexicon) (·.dropFailure) watched.asides).Watches
        (Parser.terminal lexicon words) := h.asides.once fun _ => rfl
    exact hlook s

end Watches

end Watcher

variable {a : Alphabet} {α : Type}

theorem Grammar.watch_watches {resolve : Resolver S} {watched : WatchedResolver S}
    (hresolve : ∀ x, (watched x).Watches (resolve x)) (g : Grammar S a α) :
    (g.watch watched).Watches (g.run resolve) := by
  induction g with
  | map f p ih => exact .applied (ih.once fun _ => rfl)
  | seqWith f p q ihp ihq => exact .applied (.seqWith f ihp ihq)
  | orElse p q ihp ihq => exact .applied (.orElse ihp ihq)
  | atomic p ih => exact .applied (ih.once fun _ => rfl)
  | peek p ih => exact .applied (ih.once fun _ => rfl)
  | notFollowedBy p name ih => exact .applied (ih.asides.once fun _ => rfl)
  | many p ih => exact .applied ih.many
  | label name p ih => exact .applied (ih.once fun _ => rfl)
  | traced name render p ih => exact .applied (ih.once fun _ => rfl)
  | spanned f p ih => exact .applied (ih.once fun _ => rfl)
  | ref x => exact .applied (hresolve x)
  | staged grammar lexer ihgrammar ihlexer => exact .applied (.staged ihgrammar ihlexer)
  | terminal lexicon words ih => exact .applied (.terminal lexicon ih)
  | _ => exact .applied (.leaf _)

theorem Bindings.watcher_watches (bindings : Bindings S) (depth : Nat) (x : S.Ref) :
    (bindings.watcher depth x).Watches (bindings.resolver depth x) := by
  induction depth generalizing x with
  | zero => exact .leaf _
  | succ depth ih =>
    unfold watcher resolver
    cases bindings.lookup? x with
    | none => exact .leaf _
    | some g => exact g.watch_watches ih

/-- A watched run ends as the run does. -/
theorem Rules.watch_outcome (rules : Rules S) (g : Grammar S a α) (s : State a) :
    (rules.watch g s).outcome = rules.parser g s :=
  g.watch_watches (rules.bindings.watcher_watches rules.depth) s

end Descent
