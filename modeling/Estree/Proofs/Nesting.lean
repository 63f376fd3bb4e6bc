import Estree.Proofs.Dispatch
import Estree.Proofs.Nesting.Procedures

/-!
# Brackets come in pairs

A generated text is well-nested if the texts of the tree have no brackets: procedures open and close
in separate places, around dispatches and under conditions, but each closes what it opens and lets
the nodes inside do the same. What a procedure writes itself is the skeleton of the node
(`Procedure.balanced_blank`); a node inside that is balanced counts for nothing in it
(`Alike.dueAfter_eq`), so all documents are balanced by induction along dispatch.

Main results:

* `Alike.dueAfter_eq`: balanced nodes inside count for nothing.
* `Grammar.balanced_emitAs`: every document is balanced.
* `Generator.generate_wellNested`: so every text is well-nested.
-/

namespace Estree

open Nesting

/-! ## §1. Documents. -/

/-- Scopes whose dispatches leave the same due make documents that do. -/
theorem Alike.dueAfter_eq {s₁ s₂ : Scope} {n : Node} {a b : Spot} {d₁ d₂ : Doc}
    (h : Alike s₁ s₂ n a b d₁ d₂) (hr : s₁.RanksAgree s₂ n)
    (he : ∀ k c, c.Below n → (s₁.emitAs k c).dueAfter = (s₂.emitAs k c).dueAfter) :
    d₁.dueAfter = d₂.dueAfter := by
  induction h with
  | append _ _ ihd ihe =>
    funext due
    rw [Doc.dueAfter_append, Doc.dueAfter_append, ihd, ihe]
  | anchored _ ih => exact ih
  | emitAs hc _ => exact he _ _ hc
  | parensIf hb _ ih =>
    funext due
    rw [hb hr, Doc.dueAfter_parensIf, Doc.dueAfter_parensIf, Doc.dueAfter_parens,
      Doc.dueAfter_parens, ih]
  | mark hb _ => rw [hb hr]
  | anywhere _ ih => exact ih
  | _ => rfl

/-- **Every document of a grammar is balanced** if the tree has no brackets in its texts. -/
theorem Grammar.balanced_emitAs (g : Grammar) (bound : Nat) (k : Kind) (n : Node) :
    n.BracketFree → (g.emitAs bound k n).Balanced := by
  refine emitAs_induction (motive := fun _ n d => n.BracketFree → d.Balanced) ?_ ?_ ?_ ?_ bound k n
  · exact fun _ _ _ _ => rfl
  · exact fun _ _ _ _ _ => rfl
  · exact fun _ _ _ _ h => h
  · intro k n p s hr _ ih hn
    obtain ⟨_, ha⟩ := Procedure.exists_alike hr s (.blank s.rank)
    have heq : (p.doc s n).dueAfter = (p.doc (.blank s.rank) n).dueAfter := by
      refine ha.dueAfter_eq (fun _ _ => rfl) fun k' c hc => ?_
      funext due
      exact ih k' c (fun m hm => hn m (.inr (hm.elim (fun h => h ▸ hc) fun h => h.trans hc))) due
    intro due
    rw [heq]
    exact p.balanced_blank hn s.rank due

/-! ## §2. Texts. -/

theorem Nesting.isFree_join_replicate {s : String} (h : IsFree s) (count : Nat) :
    IsFree (.join (.replicate count s)) := by
  induction count with
  | zero =>
    rw [List.replicate_zero, String.join_nil]
    decide
  | succ count ih =>
    rw [List.replicate_succ, String.join_cons, isFree_append]
    exact ⟨h, ih⟩

/-- The text of a document without a stop leaves due what the document does. -/
theorem Doc.dueAfter_renderAll {l : Layout} (hindent : IsFree l.indent) (hline : IsFree l.lineEnd)
    (d : Doc) (hd : d.halt? = none) (level : Level) (due : List Char) :
    Nesting.dueAfter due (Piece.renderAll l (d.pieces level)) = d.dueAfter due := by
  induction d generalizing level due with
  | nil | deeper | shallower => rfl
  | text s => rw [pieces, Piece.renderAll_singleton]; rfl
  | lineEnd =>
    rw [pieces, Piece.renderAll_singleton]
    exact dueAfter_of_isFree hline due
  | indent | indentAt =>
    rw [pieces, Piece.renderAll_singleton]
    exact dueAfter_of_isFree (isFree_join_replicate hindent _) due
  | stop h => cases hd
  | append a b iha ihb =>
    obtain ⟨ha, hb⟩ := Option.or_eq_none_iff.mp hd
    simp only [pieces, ha, Option.isNone_none, if_true, Piece.renderAll_append,
      Nesting.dueAfter_append, iha ha, ihb hb]
    rfl
  | anchored d ih => exact ih hd ⟨level.now, level.now⟩ due

/-- **Generated texts are well-nested**: whatever the registry, the table and the layout, a tree
without brackets in its texts is written with brackets in matching pairs only. -/
theorem Generator.generate_wellNested (g : Generator) {n : Node} (hn : n.BracketFree)
    (hindent : IsFree g.layout.indent) (hline : IsFree g.layout.lineEnd) {text : String}
    (h : g.generate n = .ok text) : WellNested text := by
  rw [generate_eq] at h
  split at h
  next hhalt =>
    cases h
    rw [wellNested_iff, Doc.dueAfter_renderAll hindent hline _ hhalt]
    exact g.grammar.balanced_emitAs _ _ n hn []
  next => cases h

/-- Brackets of all three kinds around one another: `\x7bthis[(i)];\x7d` on three lines. -/
theorem Generator.generate_wellNested_indexed :
    (Node.block .statement [.expressionStatement (.memberExpression .thisExpression
      (.sequenceExpression [.identifier "i" false none []]) true false) none]).BracketFree ∧
    ∃ text, (Generator.mk .javaScript {}).generate (.block .statement [.expressionStatement
      (.memberExpression .thisExpression (.sequenceExpression [.identifier "i" false none []]) true
        false) none]) = .ok text ∧ WellNested text := by
  have hindex : (Node.identifier "i" false none []).BracketFree :=
    Node.bracketFree_iff.mpr ⟨List.forall_mem_singleton.mpr (by decide), List.forall_mem_nil _⟩
  have hsequence : (Node.sequenceExpression [.identifier "i" false none []]).BracketFree :=
    Node.bracketFree_iff.mpr ⟨List.forall_mem_nil _, List.forall_mem_singleton.mpr hindex⟩
  have hthis : Node.thisExpression.BracketFree :=
    Node.bracketFree_iff.mpr ⟨List.forall_mem_nil _, List.forall_mem_nil _⟩
  have hmember : (Node.memberExpression .thisExpression
      (.sequenceExpression [.identifier "i" false none []]) true false).BracketFree :=
    Node.bracketFree_iff.mpr ⟨List.forall_mem_nil _,
      List.forall_mem_cons.mpr ⟨hthis, List.forall_mem_singleton.mpr hsequence⟩⟩
  have hstatement : (Node.expressionStatement (.memberExpression .thisExpression
      (.sequenceExpression [.identifier "i" false none []]) true false) none).BracketFree :=
    Node.bracketFree_iff.mpr ⟨List.forall_mem_nil _, List.forall_mem_singleton.mpr hmember⟩
  have hblock : (Node.block .statement [.expressionStatement (.memberExpression .thisExpression
      (.sequenceExpression [.identifier "i" false none []]) true false) none]).BracketFree :=
    Node.bracketFree_iff.mpr ⟨List.forall_mem_nil _, List.forall_mem_singleton.mpr hstatement⟩
  have hdoc : (Grammar.javaScript.emit (.block .statement [.expressionStatement
      (.memberExpression .thisExpression (.sequenceExpression [.identifier "i" false none []]) true
        false) none])).halt? = none := rfl
  refine ⟨hblock, _, by rw [generate_eq, hdoc], generate_wellNested ⟨.javaScript, {}⟩ hblock
    (by decide) (by decide) (by rw [generate_eq, hdoc])⟩

end Estree
