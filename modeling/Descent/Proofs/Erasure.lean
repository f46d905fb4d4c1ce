import Descent.Proofs.Parts

/-!
Grammars without their commitments.

`Grammar.erased` leaves out every `atomic` of a grammar and `Rules.erased` every one that a reference
leads to. Where there is none to begin with, also behind references, the grammar that is left has
the same parser (`Bindings.run_erased`).
-/

namespace Descent

variable {S : Scope} {a : Alphabet} {α : Type}

/-- The grammar with each `atomic` replaced by what stands in it. -/
def Grammar.erased : {a : Alphabet} → {α : Type} → Grammar S a α → Grammar S a α
  | _, _, .item extract names => .item extract names
  | _, _, .atEnd => .atEnd
  | _, _, .pure value => .pure value
  | _, _, .refuse message => .refuse message
  | _, _, .silent severity => .silent severity
  | _, _, .scan matcher name => .scan matcher name
  | _, _, .map f p => .map f p.erased
  | _, _, .seqWith f p q => .seqWith f p.erased q.erased
  | _, _, .orElse p q => .orElse p.erased q.erased
  | _, _, .atomic p => p.erased
  | _, _, .peek p => .peek p.erased
  | _, _, .notFollowedBy p name => .notFollowedBy p.erased name
  | _, _, .many p => .many p.erased
  | _, _, .label name p => .label name p.erased
  | _, _, .traced name render p => .traced name render p.erased
  | _, _, .spanned f p => .spanned f p.erased
  | _, _, .ref x => .ref x
  | _, _, .staged grammar lexer => .staged grammar.erased lexer.erased
  | _, _, .terminal lexicon words => .terminal lexicon words.erased

/-- The bindings with every grammar erased. -/
def Bindings.erased (bindings : Bindings S) : Bindings S :=
  bindings.map fun binding => ⟨binding.ref, binding.grammar.erased⟩

/-- The rules with every grammar erased. References may lead as deep as before. -/
def Rules.erased (rules : Rules S) : Rules S :=
  { rules with bindings := rules.bindings.erased }

/-! ## Grammars without commitments -/

/-- Is this an `atomic`? -/
def Part.IsAtomic : Part S → Prop
  | ⟨.atomic _⟩ => True
  | _ => False

/-- Neither the grammar nor anything it uses is an `atomic`. -/
def Grammar.AtomicFree (bindings : Bindings S) (g : Grammar S a α) : Prop :=
  g.Throughout bindings fun part => ¬ part.IsAtomic

/-- Nothing is left out of a grammar without an `atomic`. -/
theorem Grammar.AtomicFree.run_erased {bindings : Bindings S} {resolve resolve' : Resolver S}
    (hresolve : ∀ x, (Grammar.ref x).AtomicFree bindings → resolve' x = resolve x)
    {g : Grammar S a α} (h : g.AtomicFree bindings) : g.erased.run resolve' = g.run resolve := by
  induction g with
  | map f p ih => simp only [erased, run, ih (h.operand (.head _))]
  | seqWith f p q ihp ihq =>
    simp only [erased, run, ihp (h.operand (.head _)), ihq (h.operand (.tail _ (.head _)))]
  | orElse p q ihp ihq =>
    simp only [erased, run, ihp (h.operand (.head _)), ihq (h.operand (.tail _ (.head _)))]
  | atomic p _ => exact absurd trivial h.self
  | peek p ih => simp only [erased, run, ih (h.operand (.head _))]
  | notFollowedBy p name ih => simp only [erased, run, ih (h.operand (.head _))]
  | many p ih => simp only [erased, run, ih (h.operand (.head _))]
  | label name p ih => simp only [erased, run, ih (h.operand (.head _))]
  | traced name render p ih => simp only [erased, run, ih (h.operand (.head _))]
  | spanned f p ih => simp only [erased, run, ih (h.operand (.head _))]
  | ref x => exact hresolve x h
  | staged grammar lexer ihgrammar ihlexer =>
    simp only [erased, run, ihgrammar (h.operand (.head _)),
      ihlexer (h.operand (.tail _ (.head _)))]
  | terminal lexicon words ih => simp only [erased, run, ih (h.operand (.head _))]
  | _ => rfl

theorem Bindings.resolver_erased (bindings : Bindings S) (depth : Nat) (x : S.Ref)
    (hx : (Grammar.ref x).AtomicFree bindings) :
    bindings.erased.resolver depth x = bindings.resolver depth x :=
  rewritten_induction Grammar.erased (R := fun p p' => p' = p) (fun _ _ => rfl)
    (fun _ h _ _ _ hg => Grammar.AtomicFree.run_erased h hg) depth x hx

/-- A grammar without an `atomic`, also behind references, has the parser it had. -/
theorem Bindings.run_erased (bindings : Bindings S) (depth : Nat) {g : Grammar S a α}
    (h : g.AtomicFree bindings) :
    g.erased.run (bindings.erased.resolver depth) = g.run (bindings.resolver depth) :=
  h.run_erased (bindings.resolver_erased depth)

end Descent
