import Estree.Proofs.Descent
import Estree.Proofs.Expression.Grammar

/-!
# Whose `else` it is

A reader gives an `else` to the last `if` before it that can still take one, whatever the tree says
that the text was written from. `settle` makes of a tree the one that its text is read as: it goes
through the tree from the inside out and hands each `else` on to the last open `if` of the statement
before it (`giveElse`). A tree is settled when no `if` with an `else` has a body that ends in an
open `if`.

Main results:

  * `Tree.settled_giveElse`: an `else` that is handed on inside a settled tree leaves it settled;
  * `Tree.settled_settle`: what `settle` makes is settled;
  * `Tree.settle_eq_self`: a settled tree is left as it is.
-/

namespace Estree.Statement

open Expression (IsIdentifier named)

/-! ## §1. Trees. -/

/-- What stands before the body of a statement and has nothing to do with `else`. -/
inductive Head where
  /-- The head of a `while` loop. -/
  | loop (x : String)
  /-- The head of a `with` statement. -/
  | scope (x : String)
  | label (x : String)

namespace Head

/-- The name in a head. -/
def name : Head → String
  | loop x | scope x | label x => x

/-- The statement with a head and a body. -/
def node : Head → Node → Node
  | loop x, body => .whileStatement (named x) body
  | scope x, body => .withStatement (named x) body
  | label x, body => .labeledStatement (named x) body

end Head

/-- The trees of conditionals, loops, labels and blocks in which all expressions are names. -/
inductive Tree : Node → Prop where
  | empty : Tree .emptyStatement
  | expression {x : String} : IsIdentifier x → Tree (.expressionStatement (named x) none)
  | when {x : String} {s : Node} : IsIdentifier x → Tree s → Tree (.ifStatement (named x) s none)
  | choice {x : String} {s t : Node} : IsIdentifier x → Tree s → Tree t →
      Tree (.ifStatement (named x) s (some t))
  | headed {h : Head} {s : Node} : IsIdentifier h.name → Tree s → Tree (h.node s)
  | block {ss : List Node} : (∀ s ∈ ss, Tree s) → Tree (.block .statement ss)

/-! ## §2. Open statements. -/

/-- Whether a statement ends in an `if` that can still take an `else`. -/
def endsOpen : Node → Bool
  | .ifStatement _ _ none => true
  | .ifStatement _ _ (some alternate) => endsOpen alternate
  | .whileStatement _ body | .withStatement _ body | .labeledStatement _ body => endsOpen body
  | _ => false

/-- The statement with an `else` given to the last `if` that can take one. -/
def giveElse (e : Node) : Node → Node
  | .ifStatement test consequent none =>
    if endsOpen consequent then .ifStatement test (giveElse e consequent) none
    else .ifStatement test consequent (some e)
  | .ifStatement test consequent (some alternate) =>
    .ifStatement test consequent (some (giveElse e alternate))
  | .whileStatement test body => .whileStatement test (giveElse e body)
  | .withStatement object body => .withStatement object (giveElse e body)
  | .labeledStatement label body => .labeledStatement label (giveElse e body)
  | n => n

mutual

/-- The tree with every `else` given to the last `if` before it that can take one. -/
def settle : Node → Node
  | .ifStatement test consequent none => .ifStatement test (settle consequent) none
  | .ifStatement test consequent (some alternate) =>
    giveElse (settle alternate) (.ifStatement test (settle consequent) none)
  | .whileStatement test body => .whileStatement test (settle body)
  | .withStatement object body => .withStatement object (settle body)
  | .labeledStatement label body => .labeledStatement label (settle body)
  | .block form body => .block form (settleAll body)
  | n => n

/-- The trees with every `else` given to the last `if` before it that can take one. -/
def settleAll : List Node → List Node
  | [] => []
  | n :: rest => settle n :: settleAll rest

end

/-- Trees are taken one by one. -/
theorem settleAll_eq_map (ns : List Node) : settleAll ns = ns.map settle :=
  eq_map_of_elementwise rfl (fun _ _ => rfl) ns

section Forms

variable (h : Head) (test s t e : Node)

/-- An `if` without an `else` hands it on to its body, or takes it. -/
theorem giveElse_when : giveElse e (.ifStatement test s none) =
    if endsOpen s then .ifStatement test (giveElse e s) none else .ifStatement test s (some e) :=
  rfl

/-- An `if` with an `else` hands another one on to the statement after its own. -/
theorem giveElse_choice :
    giveElse e (.ifStatement test s (some t)) = .ifStatement test s (some (giveElse e t)) :=
  rfl

/-- An `if` without an `else` is settled in its body. -/
theorem settle_when : settle (.ifStatement test s none) = .ifStatement test (settle s) none := rfl

/-- An `else` goes to the `if` without one, settled, with the last open `if` in it. -/
theorem settle_choice : settle (.ifStatement test s (some t)) =
    giveElse (settle t) (.ifStatement test (settle s) none) :=
  rfl

/-- A block is settled statement by statement. -/
theorem settle_block (form : BlockForm) (ss : List Node) :
    settle (.block form ss) = .block form (ss.map settle) :=
  congrArg (Node.block form) (settleAll_eq_map ss)

/-- A head says nothing about how its statement ends. -/
theorem endsOpen_node : endsOpen (h.node s) = endsOpen s := by cases h <;> rfl

/-- A statement with a head hands an `else` on to its body. -/
theorem giveElse_node : giveElse e (h.node s) = h.node (giveElse e s) := by cases h <;> rfl

/-- A statement with a head is settled in its body. -/
theorem settle_node : settle (h.node s) = h.node (settle s) := by cases h <;> rfl

/-- A statement with a head has its name and its body inside. -/
theorem children_node : (h.node s).children = [named h.name, s] := by cases h <;> rfl

end Forms

/-! ## §3. Settled trees. -/

/-- Whether an `if` with an `else` has a body that would not take it. -/
def keepsElse : Node → Bool
  | .ifStatement _ consequent (some _) => !endsOpen consequent
  | _ => true

/-- Every `else` in the tree stands where a reader puts it. -/
def Settled (n : Node) : Prop := n.Throughout (keepsElse · = true)

section Settled

variable {x : String} {s t e : Node} {h : Head} {ss : List Node}

/-- A tree is settled if it keeps its `else` and the trees inside are settled. -/
theorem settled_iff {n : Node} : Settled n ↔ keepsElse n = true ∧ ∀ c ∈ n.children, Settled c :=
  Node.throughout_iff

/-- A name has no `else`. -/
theorem settled_named : Settled (named x) := settled_iff.mpr ⟨rfl, nofun⟩

/-- An `if` without an `else` is settled if its body is. -/
theorem settled_when : Settled (.ifStatement (named x) s none) ↔ Settled s := by
  rw [settled_iff]
  simp [keepsElse, settled_named]

/-- An `if` with an `else` is settled if its body takes no `else`, and both are settled. -/
theorem settled_choice : Settled (.ifStatement (named x) s (some t)) ↔
    endsOpen s = false ∧ Settled s ∧ Settled t := by
  rw [settled_iff]
  simp [keepsElse, settled_named]

/-- A statement with a head is settled if its body is. -/
theorem settled_node : Settled (h.node s) ↔ Settled s := by
  have hkeeps : keepsElse (h.node s) = true := by cases h <;> rfl
  rw [settled_iff, children_node]
  simp [hkeeps, settled_named]

/-- A block is settled if its statements are. -/
theorem settled_block : Settled (.block .statement ss) ↔ ∀ s ∈ ss, Settled s := by
  rw [settled_iff]
  simp [keepsElse]

end Settled

namespace Tree

variable {s e : Node}

/-- A tree with one more `else` is a tree. -/
theorem giveElse (h : Tree s) (he : Tree e) : Tree (giveElse e s) := by
  induction h with
  | empty => exact .empty
  | expression hx => exact .expression hx
  | block hss => exact .block hss
  | when hx h ih =>
    rw [giveElse_when]
    split
    · exact .when hx ih
    · exact .choice hx h he
  | choice hx h _ _ ih => exact .choice hx h ih
  | headed hx _ ih =>
    rw [giveElse_node]
    exact .headed hx ih

/-- An `else` that is handed on inside a settled tree stands where a reader puts it. -/
theorem settled_giveElse (h : Tree s) (he : Settled e) :
    Settled s → Settled (Statement.giveElse e s) := by
  induction h with
  | empty | expression | block => exact id
  | when _ _ ih =>
    intro hs
    have hbody := settled_when.mp hs
    rw [giveElse_when]
    split
    · exact settled_when.mpr (ih hbody)
    · next hclosed => exact settled_choice.mpr ⟨Bool.eq_false_iff.mpr hclosed, hbody, he⟩
  | choice _ _ _ _ ih =>
    intro hs
    obtain ⟨hclosed, hbody, helse⟩ := settled_choice.mp hs
    exact settled_choice.mpr ⟨hclosed, hbody, ih helse⟩
  | headed _ _ ih =>
    intro hs
    rw [giveElse_node]
    exact settled_node.mpr (ih (settled_node.mp hs))

/-- The settled tree is a tree. -/
theorem settle (h : Tree s) : Tree (settle s) := by
  induction h with
  | empty => exact .empty
  | expression hx => exact .expression hx
  | when hx _ ih => exact .when hx ih
  | choice hx _ _ ihs iht => exact (Tree.when hx ihs).giveElse iht
  | headed hx _ ih =>
    rw [settle_node]
    exact .headed hx ih
  | block _ ih =>
    rw [settle_block]
    exact .block (List.forall_mem_map.mpr ih)

/-- **What `settle` makes is settled.** -/
theorem settled_settle (h : Tree s) : Settled (Statement.settle s) := by
  induction h with
  | empty => exact settled_iff.mpr ⟨rfl, nofun⟩
  | expression => exact settled_iff.mpr ⟨rfl, List.forall_mem_singleton.mpr settled_named⟩
  | when _ _ ih => exact settled_when.mpr ih
  | choice hx hs _ ihs iht =>
    exact (Tree.when hx hs.settle).settled_giveElse iht (settled_when.mpr ihs)
  | headed _ _ ih =>
    rw [settle_node]
    exact settled_node.mpr ih
  | block _ ih =>
    rw [settle_block]
    exact settled_block.mpr (List.forall_mem_map.mpr ih)

/-- A settled tree has nothing to be handed on. -/
theorem settle_eq_self (h : Tree s) : Settled s → Statement.settle s = s := by
  induction h with
  | empty | expression => exact fun _ => rfl
  | when _ _ ih =>
    intro hs
    rw [settle_when, ih (settled_when.mp hs)]
  | choice _ _ _ ihs iht =>
    intro hs
    obtain ⟨hclosed, hbody, helse⟩ := settled_choice.mp hs
    rw [settle_choice, ihs hbody, iht helse, giveElse_when, hclosed]
    rfl
  | headed _ _ ih =>
    intro hs
    rw [settle_node, ih (settled_node.mp hs)]
  | block _ ih =>
    intro hs
    rw [settle_block]
    have hall := settled_block.mp hs
    rw [List.map_congr_left (g := id) fun s h => ih s h (hall s h), List.map_id]

end Tree

end Estree.Statement
