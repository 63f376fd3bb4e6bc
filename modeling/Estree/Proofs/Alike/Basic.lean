import Estree.Emit.Scope
import Estree.Proofs.Descent

/-!
# Documents of one node in two scopes

A procedure reaches the other nodes only through its scope, so the documents that it makes of a node
in two scopes are put together alike: the same texts, line ends, steps deeper and back and defects
in the same places, the same dispatches of descendants, and parentheses where the ranks of either
scope ask for them. `Alike` says so.

It also keeps account of where writing stands (`Spot`), before a document and after it. Two things
are counted there. One is the place in the line, so that nothing but indentation ever follows a line
end. The other is the depth, counted from where the procedure began: a step deeper raises it, and
there are never more than two; a step back needs a level to come back from; a dispatch of a node
inside leaves it as it is; and a document that stops may stop anywhere. So a procedure that is
`Alike` from depth zero to depth zero comes back from every level that it goes to, on each of its
paths that does not end in an error. Indentation relative to a remembered depth stands only where
the procedure itself remembers one.

What holds of single documents and what holds of pairs is then proved once, by induction on `Alike`.

Main results:

* `Alike`: documents of one node in two scopes that are put together alike, from one spot to
  another.
* `Scope.RanksAgree`: the scopes rank the node, the nodes inside and the positions alike.
-/

namespace Estree

/-! ## §1. The relation. -/

/-- Where in a line writing stands. -/
inductive LinePlace where
  /-- Anything may follow. -/
  | inside
  /-- A line end may just have been written: only indentation may follow. -/
  | lineStart

/-- How deep a procedure stands. -/
structure Depth where
  /-- The levels gone deeper since the procedure began. -/
  levels : Nat
  /-- Whether the procedure remembers a depth. -/
  anchored : Bool

/-- Where a procedure begins and ends. -/
abbrev Depth.zero : Depth := ⟨0, false⟩

/-- Where writing stands: in a line, and at a depth. -/
structure Spot where
  line : LinePlace
  depth : Depth

/-- Inside a line. -/
abbrev Spot.inside (depth : Depth) : Spot := ⟨.inside, depth⟩

/-- At the start of a line. -/
abbrev Spot.lineStart (depth : Depth) : Spot := ⟨.lineStart, depth⟩

/-- The kinds under which procedures dispatch the nodes inside, whatever their kind. -/
def assignedKinds : List Kind :=
  [.variableDeclarator, .classBody, .objectExpression, .literal, .importAttribute]

/-- The kinds whose ranks positions ask for. -/
def positionKinds : List Kind :=
  [.callExpression, .memberExpression, .classExpression, .conditionalExpression]

/-- Two scopes rank every kind alike that a procedure can ask for at a node. Besides the kinds of
the node and of the nodes inside these are those of positions; an `as` stands in the position of a
`satisfies`. -/
def Scope.RanksAgree (s₁ s₂ : Scope) (n : Node) : Prop :=
  ∀ k, k = n.kind ∨ (∃ c : Node, c.Below n ∧ k = c.kind) ∨ k ∈ positionKinds ∨
      (k = .tsSatisfiesExpression ∧ n.kind = .tsAsExpression) →
    s₁.rank k = s₂.rank k

/-- The node itself has one rank in both scopes. -/
theorem Scope.RanksAgree.self {s₁ s₂ : Scope} {n : Node} (h : s₁.RanksAgree s₂ n) :
    s₁.rank n.kind = s₂.rank n.kind :=
  h _ (.inl rfl)

/-- So have the nodes directly inside. -/
theorem Scope.RanksAgree.child {s₁ s₂ : Scope} {n c : Node} (h : s₁.RanksAgree s₂ n)
    (hc : c ∈ n.children) : s₁.rank c.kind = s₂.rank c.kind :=
  h _ (.inr (.inl ⟨c, .child hc, rfl⟩))

/-- So have the kinds that stand for positions. -/
theorem Scope.RanksAgree.position {s₁ s₂ : Scope} {n : Node} {k : Kind} (h : s₁.RanksAgree s₂ n)
    (hk : k ∈ positionKinds) : s₁.rank k = s₂.rank k :=
  h _ (.inr (.inr (.inl hk)))

/-- The documents `d₁` and `d₂` are put together alike for the node `n` in the scopes `s₁` and `s₂`,
and lead from one spot to another. -/
inductive Alike (s₁ s₂ : Scope) (n : Node) : Spot → Spot → Doc → Doc → Prop where
  | nil {a} : Alike s₁ s₂ n a a .nil .nil
  | text {r} (t : String) : Alike s₁ s₂ n (.inside r) (.inside r) (.text t) (.text t)
  | lineEnd {r} : Alike s₁ s₂ n (.inside r) (.lineStart r) .lineEnd .lineEnd
  | indent {p r} : Alike s₁ s₂ n ⟨p, r⟩ (.inside r) .indent .indent
  | indentAt {p i} (levels : Nat) :
      Alike s₁ s₂ n ⟨p, i, true⟩ (.inside ⟨i, true⟩) (.indentAt levels) (.indentAt levels)
  /-- A step deeper, to the second level at most. -/
  | deeper {p i o} (hi : i < 2) : Alike s₁ s₂ n ⟨p, i, o⟩ ⟨p, i + 1, o⟩ .deeper .deeper
  /-- A step back from a level that was gone to. -/
  | shallower {p i o} : Alike s₁ s₂ n ⟨p, i + 1, o⟩ ⟨p, i, o⟩ .shallower .shallower
  | append {a b c d₁ d₂ e₁ e₂} :
      Alike s₁ s₂ n a b d₁ d₂ → Alike s₁ s₂ n b c e₁ e₂ →
      Alike s₁ s₂ n a c (d₁ ++ e₁) (d₂ ++ e₂)
  | anchored {p q i j o d₁ d₂} : Alike s₁ s₂ n ⟨p, i, true⟩ ⟨q, j, true⟩ d₁ d₂ →
      Alike s₁ s₂ n ⟨p, i, o⟩ ⟨q, j, o⟩ (.anchored d₁) (.anchored d₂)
  /-- A defect of the node or of one inside it. -/
  | malformed {p q i j o} {c : Node} (hc : c = n ∨ c.Below n) (d : Defect) :
      Alike s₁ s₂ n ⟨p, i, o⟩ ⟨q, j, o⟩ (.malformed c d) (.malformed c d)
  /-- The dispatch of a node inside. -/
  | emitAs {r} {k : Kind} {c : Node} (hc : c.Below n) (hk : k = c.kind ∨ k ∈ assignedKinds) :
      Alike s₁ s₂ n (.inside r) (.inside r) (s₁.emitAs k c) (s₂.emitAs k c)
  /-- Parentheses that depend on ranks. -/
  | parensIf {r d₁ d₂} {b₁ b₂ : Bool} (hb : s₁.RanksAgree s₂ n → b₁ = b₂) :
      Alike s₁ s₂ n (.inside r) (.inside r) d₁ d₂ →
      Alike s₁ s₂ n (.inside r) (.inside r) (d₁.parensIf b₁) (d₂.parensIf b₂)
  /-- A space or a terminator that depends on ranks. -/
  | mark {r} {b₁ b₂ : Bool} (hb : s₁.RanksAgree s₂ n → b₁ = b₂) {t : String}
      (ht : t = " " ∨ t = ";") :
      Alike s₁ s₂ n (.inside r) (.inside r) (.onlyIf b₁ t) (.onlyIf b₂ t)
  /-- What may follow a line end may stand anywhere. -/
  | anywhere {r b d₁ d₂} :
      Alike s₁ s₂ n (.lineStart r) b d₁ d₂ → Alike s₁ s₂ n (.inside r) b d₁ d₂

/-- The documents stay inside a line and come back to their depth. -/
abbrev Inline (s₁ s₂ : Scope) (n : Node) (r : Depth) (d₁ d₂ : Doc) : Prop :=
  Alike s₁ s₂ n (.inside r) (.inside r) d₁ d₂

namespace Alike

variable {s₁ s₂ : Scope} {n : Node} {r : Depth} {a b : Spot}

/-! ## §2. Documents in general. -/

/-- Every spot leads to one at which the same is remembered. -/
theorem anchored_eq {d₁ d₂ : Doc} (h : Alike s₁ s₂ n a b d₁ d₂) :
    a.depth.anchored = b.depth.anchored := by
  induction h with
  | append _ _ ihd ihe => exact ihd.trans ihe
  | anywhere _ ih => exact ih
  | _ => rfl

/-- A node of another kind is reported wherever writing stands. -/
theorem expected {p q : LinePlace} {i j : Nat} {o : Bool} (kinds : List Kind) :
    Alike s₁ s₂ n ⟨p, i, o⟩ ⟨q, j, o⟩ (.expected n kinds) (.expected n kinds) :=
  .malformed (.inl rfl) _

/-- Two documents on one line. -/
theorem beside {d₁ d₂ e₁ e₂ : Doc} (hd : Inline s₁ s₂ n r d₁ d₂)
    (he : Inline s₁ s₂ n r e₁ e₂) :
    Inline s₁ s₂ n r (d₁ ++ e₁) (d₂ ++ e₂) :=
  .append hd he

/-- A document that is there under a condition on the node. -/
theorem onlyIf {d₁ d₂ : Doc} (c : Bool) (h : Alike s₁ s₂ n a a d₁ d₂) :
    Alike s₁ s₂ n a a (.onlyIf c d₁) (.onlyIf c d₂) := by
  cases c
  · exact .nil
  · exact h

/-- A part that may be absent ends where it starts. -/
theorem ofOption {α : Type} {o : Option α} {f₁ f₂ : α → Doc}
    (h : ∀ x, o = some x → Alike s₁ s₂ n a a (f₁ x) (f₂ x)) :
    Alike s₁ s₂ n a a (.ofOption o f₁) (.ofOption o f₂) := by
  cases o with
  | none => exact .nil
  | some x => exact h x rfl

/-- Parts that end where they start, one after the other. -/
theorem concat {α : Type} {xs : List α} {f₁ f₂ : α → Doc}
    (h : ∀ x ∈ xs, Alike s₁ s₂ n a a (f₁ x) (f₂ x)) :
    Alike s₁ s₂ n a a (.concat (xs.map f₁)) (.concat (xs.map f₂)) := by
  induction xs with
  | nil => exact .nil
  | cons x rest ih =>
    exact .append (h x List.mem_cons_self) (ih fun y hy => h y (List.mem_cons_of_mem _ hy))

/-- Items with separators: the separator leads from the end of an item to the start of the next. -/
theorem join {α : Type} {xs : List α} {f₁ f₂ : α → Doc} {sep : Doc} (hne : xs ≠ [])
    (hsep : Alike s₁ s₂ n b a sep sep)
    (h : ∀ x ∈ xs, Alike s₁ s₂ n a b (f₁ x) (f₂ x)) :
    Alike s₁ s₂ n a b (.join sep (xs.map f₁)) (.join sep (xs.map f₂)) := by
  induction xs with
  | nil => exact absurd rfl hne
  | cons x rest ih =>
    have hx := h x List.mem_cons_self
    cases rest with
    | nil => exact hx
    | cons y rest =>
      have hrest := ih (List.cons_ne_nil _ _) fun z hz => h z (List.mem_cons_of_mem _ hz)
      exact .append (.append hx hsep) hrest

theorem joinText {α : Type} {xs : List α} {f₁ f₂ : α → Doc} {sep : String}
    (h : ∀ x ∈ xs, Inline s₁ s₂ n r (f₁ x) (f₂ x)) :
    Inline s₁ s₂ n r (.join sep (xs.map f₁)) (.join sep (xs.map f₂)) := by
  cases xs with
  | nil => exact .nil
  | cons x rest => exact join (List.cons_ne_nil _ _) (.text sep) h

/-- Parentheses, brackets and braces around what stays in the line. -/
theorem parens {d₁ d₂ : Doc} (h : Inline s₁ s₂ n r d₁ d₂) :
    Inline s₁ s₂ n r d₁.parens d₂.parens :=
  .append (.append (.text _) h) (.text _)

theorem brackets {d₁ d₂ : Doc} (h : Inline s₁ s₂ n r d₁ d₂) :
    Inline s₁ s₂ n r d₁.brackets d₂.brackets :=
  .append (.append (.text _) h) (.text _)

theorem braces {d₁ d₂ : Doc} (h : Inline s₁ s₂ n r d₁ d₂) :
    Inline s₁ s₂ n r d₁.braces d₂.braces :=
  .append (.append (.text _) h) (.text _)

theorem line {d₁ d₂ : Doc} (h : Inline s₁ s₂ n r d₁ d₂) :
    Alike s₁ s₂ n (.lineStart r) (.lineStart r) d₁.line d₂.line :=
  .append (.append .indent h) .lineEnd

/-! ## §3. Nodes and names. -/

/-- A node directly inside is dispatched as what it is. -/
theorem emit {c : Node} (h : c ∈ n.children) :
    Inline s₁ s₂ n r (s₁.emit c) (s₂.emit c) :=
  .emitAs (.child h) (.inl rfl)

/-- The dispatch of a child under an assigned kind. -/
theorem emitUnder {k : Kind} {c : Node} (h : c ∈ n.children) (hk : k ∈ assignedKinds) :
    Inline s₁ s₂ n r (s₁.emitAs k c) (s₂.emitAs k c) :=
  .emitAs (.child h) (.inr hk)

theorem emit? {o : Option Node} (h : ∀ c, o = some c → c ∈ n.children) :
    Inline s₁ s₂ n r (s₁.emit? o) (s₂.emit? o) :=
  ofOption fun c hc => emit (h c hc)

/-- A text before a node that may be absent. -/
theorem lead {o : Option Node} (t : String) (h : ∀ c, o = some c → c ∈ n.children) :
    Inline s₁ s₂ n r (.ofOption o fun c => .text t ++ s₁.emit c)
      (.ofOption o fun c => .text t ++ s₂.emit c) :=
  ofOption fun c hc => .append (.text t) (emit (h c hc))

theorem annot {o : Option Node} (h : ∀ c, o = some c → c ∈ n.children) :
    Inline s₁ s₂ n r (s₁.annot o) (s₂.annot o) :=
  lead _ h

/-- Nodes with a separator between them. -/
theorem joined {ns : List Node} {sep : String} (h : ∀ c ∈ ns, c ∈ n.children) :
    Inline s₁ s₂ n r (s₁.joined sep ns) (s₂.joined sep ns) :=
  joinText fun c hc => emit (h c hc)

theorem sequence {ns : List Node} (h : ∀ c ∈ ns, c ∈ n.children) :
    Inline s₁ s₂ n r (s₁.sequence ns) (s₂.sequence ns) :=
  parens (joined h)

/-- Each node of a block starts and ends a line. -/
theorem lines {ns : List Node} (h : ∀ c ∈ ns, c ∈ n.children) :
    Alike s₁ s₂ n (.lineStart r) (.lineStart r) (s₁.lines ns) (s₂.lines ns) :=
  concat fun c hc => line (emit (h c hc))

/-- A block goes one level deeper, and comes back whether it is empty or not. -/
theorem block {ns : List Node} (h : ∀ c ∈ ns, c ∈ n.children) :
    Inline s₁ s₂ n .zero (s₁.block ns) (s₂.block ns) := by
  refine braces (.append (.deeper (by decide)) ?_)
  split
  · exact .shallower
  · exact .append (.append (.append .lineEnd (lines h)) .shallower) .indent

/-- A key, in brackets if it is computed. -/
theorem key {c : Node} {computed : Bool} (h : c ∈ n.children) :
    Inline s₁ s₂ n r (s₁.key c computed) (s₂.key c computed) := by
  unfold Scope.key
  split
  · exact brackets (emit h)
  · exact emit h

theorem ofExcept_map {α β : Type} (x : Except EmitError α) (g : α → β) (f : β → Doc) :
    Doc.ofExcept (x.map g) f = Doc.ofExcept x fun y => f (g y) := by
  cases x <;> rfl

/-- What depends on the name that a node has to be. -/
theorem identifierName {c : Node} {f₁ f₂ : String → Doc} (hc : c = n ∨ c.Below n)
    (h : ∀ t, Inline s₁ s₂ n r (f₁ t) (f₂ t)) :
    Inline s₁ s₂ n r (.ofExcept c.identifierName f₁) (.ofExcept c.identifierName f₂) := by
  unfold Node.identifierName
  split
  · exact h _
  · exact .malformed hc _

/-- What depends on the export that a node has to name. -/
theorem exportName {c : Node} {f₁ f₂ : String → Doc} (hc : c = n ∨ c.Below n)
    (h : ∀ t, Inline s₁ s₂ n r (f₁ t) (f₂ t)) :
    Inline s₁ s₂ n r (.ofExcept c.exportName f₁) (.ofExcept c.exportName f₂) := by
  unfold Node.exportName
  split
  · exact h _
  · exact .malformed hc _

/-! ## §4. Operands. -/

/-- Comparing ranks needs the two ranks only. -/
theorem ranksBelow_congr {k t : Kind} (hk : s₁.rank k = s₂.rank k) (ht : s₁.rank t = s₂.rank t) :
    s₁.ranksBelow k t = s₂.ranksBelow k t := by
  unfold Scope.ranksBelow
  rw [hk, ht]

/-- Asking for parentheses needs the two ranks only. -/
theorem needsParens_congr {c p : Node} {right : Bool} (hc : s₁.rank c.kind = s₂.rank c.kind)
    (hp : s₁.rank p.kind = s₂.rank p.kind) :
    s₁.needsParens c p right = s₂.needsParens c p right := by
  unfold Scope.needsParens
  rw [hc, hp]

/-- An operand of the node: the parentheses depend on ranks that agree. -/
theorem operandOf {c : Node} {right : Bool} (h : c ∈ n.children) :
    Inline s₁ s₂ n r (s₁.operandOf c n right) (s₂.operandOf c n right) := by
  exact .parensIf (fun hr => needsParens_congr (hr.child h) hr.self) (emit h)

/-- An operand in a position: so do these. -/
theorem operand {c : Node} {position : Kind} (h : c ∈ n.children) (hp : position ∈ positionKinds) :
    Inline s₁ s₂ n r (s₁.operand c position) (s₂.operand c position) := by
  exact .parensIf (fun hr => ranksBelow_congr (hr.child h) (hr.position hp)) (emit h)

/-- An operand in a position that wants what the node itself has. -/
theorem operandOwn {c : Node} {position : Kind} (h : c ∈ n.children) (hp : position = n.kind) :
    Inline s₁ s₂ n r (s₁.operand c position) (s₂.operand c position) := by
  subst hp
  exact .parensIf (fun hr => ranksBelow_congr (hr.child h) hr.self) (emit h)

end Alike

end Estree
