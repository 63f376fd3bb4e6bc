import Estree.Proofs.Alike
import Estree.Proofs.Nesting.Words

/-!
# The brackets that a procedure writes itself

The skeleton of a node is what a procedure writes around the nodes that it dispatches: the document
that it makes in a scope where every dispatch is empty (`Scope.blank`). If no text of the node has
brackets, the skeleton closes what it opens. Whether it does is decided by simplification: the
lemmas here say of every way to put documents together which brackets are due after it.

Main results:

* `Node.bracketFree_iff`: trees whose texts have no brackets.
* `Doc.dueAfter_append`, `Doc.dueAfter_parens` and the like: what is due after a document.
* `Scope.dueAfter_block` and the like: what is left of the helpers in a blank scope.
-/

namespace Estree

open Nesting

/-! ## §1. The texts of a node. -/

/-- The texts of a literal that can be written. -/
def Literal.texts (l : Literal) : List String :=
  l.raw.toList ++ l.regex.toList.flatMap (fun r => [r.pattern, r.flags]) ++ l.bigint.toList
    ++ l.value.texts

namespace Node

/-- The texts of a node that can be written; those of the nodes inside are not counted. -/
def texts : Node → List String
  | .variableDeclaration kind _ _ => [kind]
  | .methodDefinition m | .tsAbstractMethodDefinition m => m.kind :: m.accessibility.toList
  | .classField _ f => f.accessibility.toList
  | .tsParameterProperty p => p.accessibility.toList
  | .importDeclaration _ _ kind _ | .importSpecifier _ _ kind | .exportSpecifier _ _ kind
  | .exportAllDeclaration _ _ kind _ => kind.toList
  | .exportNamedDeclaration d => d.exportKind.toList
  | .templateElement value _ => [value.raw]
  | .property p => [p.kind]
  | .unaryExpression operator _ _ | .updateExpression operator _ _
  | .assignmentExpression operator _ _ | .binaryExpression operator _ _
  | .logicalExpression operator _ _ | .tsTypeOperator operator _ => [operator]
  | .identifier name _ _ _ | .privateIdentifier name => [name]
  | .literal l | .regExpLiteral l => l.texts
  | .tsMethodSignature m => [m.kind]
  | .tsTypeParameter ⟨.plain name, _, _, _, _, _⟩ => [name]
  | _ => []

/-- No text that can be written of the node, or of a node inside it, has brackets. -/
def BracketFree (n : Node) : Prop := ∀ c : Node, c = n ∨ c.Below n → ∀ t ∈ c.texts, IsFree t

/-- There are no brackets in the texts of a tree when there are none in those of its root and of the
trees below it. -/
theorem bracketFree_iff {n : Node} :
    n.BracketFree ↔ (∀ t ∈ n.texts, IsFree t) ∧ ∀ c ∈ n.children, c.BracketFree := by
  constructor
  · intro h
    refine ⟨h n (.inl rfl), fun c hc m hm => h m (.inr ?_)⟩
    rcases hm with rfl | hm
    · exact .child hc
    · exact .deeper hm hc
  · rintro ⟨hn, hc⟩ m (rfl | hm)
    · exact hn
    · cases hm with
      | child hm => exact hc _ hm _ (.inl rfl)
      | deeper hm hp => exact hc _ hp _ (.inr hm)

/-- The texts of the node itself. -/
theorem BracketFree.texts {n : Node} (h : n.BracketFree) : ∀ t ∈ n.texts, IsFree t :=
  (bracketFree_iff.mp h).1

/-- The texts of a node inside. -/
theorem BracketFree.child {n c : Node} (h : n.BracketFree) (hc : c ∈ n.children) : c.BracketFree :=
  (bracketFree_iff.mp h).2 c hc

end Node

/-! ## §2. What is due after a document. -/

namespace Doc

/-- What is due after a document; indentation, line ends, steps of the depth and stops are passed
over. -/
def dueAfter : Doc → List Char → Option (List Char)
  | text s, due => Nesting.dueAfter due s
  | append a b, due => (a.dueAfter due).bind b.dueAfter
  | anchored d, due => d.dueAfter due
  | _, due => some due

/-- The document closes what it opens, and nothing else. -/
def Balanced (d : Doc) : Prop := ∀ due, d.dueAfter due = some due

variable (due : List Char)

/-- A document is balanced when it leaves what is due as it is. -/
@[simp] theorem balanced_iff {d : Doc} : d.Balanced ↔ ∀ due, d.dueAfter due = some due := ⟨id, id⟩

@[simp] theorem dueAfter_nil : nil.dueAfter due = some due := (rfl)

@[simp] theorem dueAfter_lineEnd : lineEnd.dueAfter due = some due := (rfl)

@[simp] theorem dueAfter_indent : indent.dueAfter due = some due := (rfl)

@[simp] theorem dueAfter_indentAt (levels : Nat) :
    (indentAt levels).dueAfter due = some due := (rfl)

@[simp] theorem dueAfter_deeper : deeper.dueAfter due = some due := (rfl)

@[simp] theorem dueAfter_shallower : shallower.dueAfter due = some due := (rfl)

@[simp] theorem dueAfter_anchored (d : Doc) : (anchored d).dueAfter due = d.dueAfter due := (rfl)

/-- What stops before it writes anything leaves nothing open. -/
@[simp] theorem dueAfter_malformed (n : Node) (d : Defect) :
    (malformed n d).dueAfter due = some due := (rfl)

@[simp] theorem dueAfter_expected (n : Node) (kinds : List Kind) :
    (expected n kinds).dueAfter due = some due :=
  dueAfter_malformed due n _

/-- What is due goes from one document to the next. -/
@[simp] theorem dueAfter_append (a b : Doc) :
    (a ++ b).dueAfter due = (a.dueAfter due).bind b.dueAfter := (rfl)

/-- Two balanced documents make one. -/
theorem Balanced.append {a b : Doc} (ha : a.Balanced) (hb : b.Balanced) : (a ++ b).Balanced := by
  intro due
  rw [dueAfter_append, ha due]
  exact hb due

@[simp] theorem dueAfter_text {t : String} (h : IsFree t) : (text t).dueAfter due = some due :=
  dueAfter_of_isFree h due

@[simp] theorem dueAfter_text_ite (p : Prop) [Decidable p] (s t : String) :
    (text (if p then s else t)).dueAfter due
      = if p then (text s).dueAfter due else (text t).dueAfter due := by
  split <;> rfl

@[simp] theorem dueAfter_ite (p : Prop) [Decidable p] (a b : Doc) :
    (if p then a else b).dueAfter due = if p then a.dueAfter due else b.dueAfter due := by
  split <;> rfl

/-- A part that may be left out. -/
@[simp] theorem dueAfter_onlyIf (b : Bool) (d : Doc) :
    (onlyIf b d).dueAfter due = if b then d.dueAfter due else some due := by
  cases b <;> rfl

@[simp] theorem dueAfter_typedOnly (d : Dialect) (doc : Doc) :
    (d.typedOnly doc).dueAfter due = if d = .typed then doc.dueAfter due else some due := by
  cases d <;> rfl

/-- A part that may be absent. -/
@[simp] theorem dueAfter_ofOption {α : Type} {o : Option α} {f : α → Doc}
    (h : ∀ x, o = some x → (f x).dueAfter due = some due) :
    (ofOption o f).dueAfter due = some due := by
  cases o with
  | none => rfl
  | some x => exact h x rfl

/-- A part that starts from a result. -/
theorem dueAfter_ofExcept {α : Type} {x : Except EmitError α} {f : α → Doc}
    (h : ∀ a, x = .ok a → (f a).dueAfter due = some due) :
    (ofExcept x f).dueAfter due = some due := by
  cases x with
  | error e => rfl
  | ok a => exact h a rfl

/-- Balanced documents one after the other. -/
@[simp] theorem dueAfter_concat {ds : List Doc} (h : ∀ d ∈ ds, d.Balanced) :
    (concat ds).dueAfter due = some due := by
  induction ds with
  | nil => rfl
  | cons d rest ih =>
    show (d.dueAfter due).bind (concat rest).dueAfter = some due
    rw [h d List.mem_cons_self due]
    exact ih fun e he => h e (List.mem_cons_of_mem _ he)

/-- Balanced documents with a balanced separator. -/
@[simp] theorem dueAfter_join {sep : Doc} {ds : List Doc} (hsep : sep.Balanced)
    (h : ∀ d ∈ ds, d.Balanced) : (join sep ds).dueAfter due = some due := by
  induction ds with
  | nil => rfl
  | cons d rest ih =>
    have hd := h d List.mem_cons_self
    cases rest with
    | nil => exact hd due
    | cons e rest =>
      have hrest := ih fun e he => h e (List.mem_cons_of_mem _ he)
      show (((d ++ sep) ++ join sep (e :: rest)).dueAfter due) = some due
      rw [dueAfter_append, (hd.append hsep) due]
      exact hrest

/-- A parenthesis is due while its contents are written. -/
@[simp] theorem dueAfter_parens (d : Doc) :
    d.parens.dueAfter due = (d.dueAfter (')' :: due)).bind (text ")").dueAfter := (rfl)

@[simp] theorem dueAfter_brackets (d : Doc) :
    d.brackets.dueAfter due = (d.dueAfter (']' :: due)).bind (text "]").dueAfter := (rfl)

@[simp] theorem dueAfter_braces (d : Doc) :
    d.braces.dueAfter due = (d.dueAfter ('\x7d' :: due)).bind (text "\x7d").dueAfter := (rfl)

@[simp] theorem dueAfter_parensIf (b : Bool) (d : Doc) :
    (d.parensIf b).dueAfter due = if b then d.parens.dueAfter due else d.dueAfter due := by
  cases b <;> rfl

/-- The words that open or close a bracket. -/
@[simp] theorem dueAfter_words (due : List Char) :
    ((text "if (").dueAfter due = some (')' :: due)
      ∧ (text "with (").dueAfter due = some (')' :: due)
      ∧ (text "switch (").dueAfter due = some (')' :: due)
      ∧ (text " catch (").dueAfter due = some (')' :: due)
      ∧ (text "while (").dueAfter due = some (')' :: due)
      ∧ (text " while (").dueAfter due = some (')' :: due)
      ∧ (text "for (").dueAfter due = some (')' :: due)
      ∧ (text "for await (").dueAfter due = some (')' :: due)
      ∧ (text "import(").dueAfter due = some (')' :: due))
    ∧ ((text ")").dueAfter (')' :: due) = some due
      ∧ (text ") ").dueAfter (')' :: due) = some due
      ∧ (text ");").dueAfter (')' :: due) = some due
      ∧ (text ") \x7b").dueAfter (')' :: due) = some ('\x7d' :: due))
    ∧ ((text "\x7b ").dueAfter due = some ('\x7d' :: due)
      ∧ (text "$\x7b").dueAfter due = some ('\x7d' :: due)
      ∧ (text " with \x7b ").dueAfter due = some ('\x7d' :: due)
      ∧ (text "\x7d").dueAfter ('\x7d' :: due) = some due
      ∧ (text " \x7d").dueAfter ('\x7d' :: due) = some due)
    ∧ (text "]").dueAfter (']' :: due) = some due
    ∧ (text "[]").dueAfter due = some due := by
  and_intros <;> rfl

end Doc

/-! ## §3. Scopes without dispatch. -/

/-- The scope in which every dispatch is empty. -/
def Scope.blank (rank : Kind → Option Rank) : Scope := ⟨fun _ _ => .nil, rank⟩

namespace Scope

variable (rank : Kind → Option Rank) (due : List Char)

/-- Nothing is written for a dispatched node. -/
@[simp] theorem emitAs_blank (k : Kind) (n : Node) : (blank rank).emitAs k n = .nil := rfl

@[simp] theorem emit_blank (n : Node) : (blank rank).emit n = .nil := rfl

@[simp] theorem dueAfter_emit? (o : Option Node) :
    ((blank rank).emit? o).dueAfter due = some due := by
  simp [emit?]

/-- Only separators are left of a list of nodes. -/
@[simp] theorem dueAfter_joined {sep : String} (h : IsFree sep) (ns : List Node) :
    ((blank rank).joined sep ns).dueAfter due = some due := by
  simp [joined, h]

@[simp] theorem dueAfter_sequence (ns : List Node) :
    ((blank rank).sequence ns).dueAfter due = some due := by
  simp +decide [sequence]

@[simp] theorem dueAfter_parenthesized (n : Node) :
    ((blank rank).parenthesized n).dueAfter due = some due := by
  simp [parenthesized]

@[simp] theorem dueAfter_annot (o : Option Node) :
    ((blank rank).annot o).dueAfter due = some due := by
  simp +decide [annot]

@[simp] theorem dueAfter_lines (ns : List Node) :
    ((blank rank).lines ns).dueAfter due = some due := by
  simp [lines, Doc.line]

/-- Only the braces are left of a block. -/
@[simp] theorem dueAfter_block (ns : List Node) :
    ((blank rank).block ns).dueAfter due = some due := by
  simp [block]

/-- Only the brackets are left of a computed key. -/
@[simp] theorem dueAfter_key (n : Node) (computed : Bool) :
    ((blank rank).key n computed).dueAfter due = some due := by
  simp [key]

/-- Only the parentheses are left of an operand. -/
@[simp] theorem dueAfter_operandOf (n parent : Node) (right : Bool) :
    ((blank rank).operandOf n parent right).dueAfter due = some due := by
  simp [operandOf]

@[simp] theorem dueAfter_operand (n : Node) (position : Kind) :
    ((blank rank).operand n position).dueAfter due = some due := by
  simp [operand]

end Scope

end Estree
