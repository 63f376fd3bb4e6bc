import Estree.Proofs.Dispatch
import Estree.Proofs.Erasure.Node
import Mathlib.Logic.Function.Basic

/-!
# What emission asks of a node

When a node is written in the typed dialect, the nodes inside are dispatched, and some of them are
asked for more: an operator, a name, the function behind a method, the names of nested namespaces.
`Node.traits` collects all that is ever asked of a node. Nodes with the same traits can stand for
each other anywhere in a tree.

Main results:

* `Node.traits`: all that is asked of a node.
* `Node.traits_rep`: one node stands for all that have its traits.
-/

namespace Estree

/-! ## §1. What documents say. -/

/-- What a document says at each level: its pieces and where it leads, or nothing when it stops. -/
def Said : Type := Level → Option (List Piece × Level)

namespace Said

/-- Nothing is said, and nothing stops. -/
def nil : Said := fun level => some ([], level)

/-- Writing stops. -/
def stop : Said := fun _ => none

/-- One after the other: the second starts where the first leads. -/
def append (a b : Said) : Said := fun level =>
  (a level).bind fun x => (b x.2).map fun y => (x.1 ++ y.1, y.2)

instance : Append Said := ⟨append⟩

/-- With the level at the start remembered. -/
def anchored (a : Said) : Said := fun level =>
  (a ⟨level.now, level.now⟩).map fun x => (x.1, { level with now := x.2.now })

/-- All of a list. -/
def concat : List Said → Said
  | [] => nil
  | a :: rest => a ++ concat rest

/-- All of a list with a separator between. -/
def join (sep : Said) : List Said → Said
  | [] => nil
  | [a] => a
  | a :: rest => a ++ sep ++ join sep rest

/-- The second part is said where the first one ends. -/
theorem append_apply (a b : Said) (level : Level) :
    (a ++ b) level = (a level).bind fun x => (b x.2).map fun y => (x.1 ++ y.1, y.2) := rfl

@[simp] theorem nil_append (a : Said) : nil ++ a = a := by
  funext level
  rw [append_apply]
  cases h : a level <;> simp [nil, h]

@[simp] theorem append_nil (a : Said) : a ++ nil = a := by
  funext level
  rw [append_apply]
  cases h : a level <;> simp [nil]

@[simp] theorem stop_append (a : Said) : stop ++ a = stop := rfl

/-- What is said one after the other may be grouped in any way. -/
theorem append_assoc (a b c : Said) : a ++ b ++ c = a ++ (b ++ c) := by
  funext level
  simp only [append_apply]
  cases a level with
  | none => rfl
  | some x =>
    cases hb : b x.2 with
    | none => simp [hb]
    | some y => cases hc : c y.2 <;> simp [hb, hc]

end Said

namespace Doc

/-- What a document says. -/
def said (d : Doc) : Said := fun level =>
  if d.halt?.isNone then some (d.pieces level, d.after level) else none

@[simp] theorem said_nil : nil.said = .nil := rfl

@[simp] theorem said_stop (h : Halt) : (stop h).said = .stop := rfl

@[simp] theorem said_fail (e : EmitError) : (fail e).said = .stop := rfl

@[simp] theorem said_malformed (n : Node) (d : Defect) : (malformed n d).said = .stop := rfl

@[simp] theorem said_expected (n : Node) (ks : List Kind) : (expected n ks).said = .stop := rfl

/-- Documents are said one after the other. -/
@[simp] theorem said_append (a b : Doc) : (a ++ b).said = a.said ++ b.said := by
  funext level
  rw [Said.append_apply]
  unfold said
  rw [halt?_append, pieces_append]
  cases ha : a.halt? with
  | some h => simp
  | none => cases b.halt? <;> simp [after_append ha]

@[simp] theorem said_anchored (d : Doc) : (anchored d).said = d.said.anchored := by
  funext level
  unfold said Said.anchored
  rw [halt?_anchored]
  cases d.halt? <;> rfl

/-- A part that may be left out. -/
@[simp] theorem said_onlyIf (b : Bool) (d : Doc) :
    (onlyIf b d).said = if b then d.said else .nil := by
  cases b <;> rfl

@[simp] theorem said_ite (p : Prop) [Decidable p] (a b : Doc) :
    (if p then a else b).said = if p then a.said else b.said := by
  split <;> rfl

/-- A part that may be absent. -/
@[simp] theorem said_ofOption {α : Type} (o : Option α) (f : α → Doc) :
    (ofOption o f).said = o.elim .nil fun a => (f a).said := by
  cases o <;> rfl

/-- A part that starts from a result; an error stops. -/
@[simp] theorem said_ofExcept {α : Type} (x : Except EmitError α) (f : α → Doc) :
    (ofExcept x f).said = x.toOption.elim .stop fun a => (f a).said := by
  cases x <;> rfl

/-- Documents one after the other. -/
@[simp] theorem said_concat (ds : List Doc) : (concat ds).said = .concat (ds.map said) := by
  induction ds with
  | nil => rfl
  | cons d rest ih => rw [concat, said_append, ih, List.map_cons, Said.concat]

/-- Documents with a separator. -/
@[simp] theorem said_join (sep : Doc) (ds : List Doc) :
    (join sep ds).said = .join sep.said (ds.map said) := by
  induction ds with
  | nil => rfl
  | cons d rest ih =>
    cases rest with
    | nil => rfl
    | cons e rest =>
      show (d ++ sep ++ join sep (e :: rest)).said = _
      rw [said_append, said_append, ih]
      rfl

@[simp] theorem said_parens (d : Doc) :
    d.parens.said = (text "(").said ++ d.said ++ (text ")").said := by
  simp [parens]

@[simp] theorem said_brackets (d : Doc) :
    d.brackets.said = (text "[").said ++ d.said ++ (text "]").said := by
  simp [brackets]

@[simp] theorem said_braces (d : Doc) :
    d.braces.said = (text "\x7b").said ++ d.said ++ (text "\x7d").said := by
  simp [braces]

/-- Parentheses where they are needed. -/
@[simp] theorem said_parensIf (b : Bool) (d : Doc) :
    (d.parensIf b).said = if b then d.parens.said else d.said := by
  cases b <;> rfl

@[simp] theorem said_line (d : Doc) : d.line.said = indent.said ++ d.said ++ lineEnd.said := by
  simp [line]

/-- Documents that say the same are rendered alike. -/
theorem toOption_render {d e : Doc} (h : d.said = e.said) (l : Layout) :
    (d.render l).toOption = (e.render l).toOption := by
  have hl := congrFun h ⟨l.level, l.level⟩
  unfold said at hl
  rw [render, render, run_eq, run_eq, written, written]
  cases hd : d.halt? <;> cases he : e.halt? <;>
    simp_all [Except.toOption, outcome, Writer.ofLayout]

end Doc

/-! ## §2. Traits. -/

/-- The kind, with the abstract members of classes taken for the others. -/
def Kind.concrete : Kind → Kind
  | .tsAbstractMethodDefinition => .methodDefinition
  | .tsAbstractPropertyDefinition => .propertyDefinition
  | .tsAbstractAccessorProperty => .accessorProperty
  | k => k

/-- The dispatch of the typed dialect. -/
def Scope.typed : Scope := Grammar.typeScript.scope

open Scope in
theorem Scope.typed_emitAs (k : Kind) (n : Node) :
    typed.emitAs k n = match Registry.full.get? k with
      | none => .fail (.unsupported k n)
      | some p => p.doc typed n :=
  Grammar.scope_emitAs _ k n

namespace Node

open Scope

/-- The operator that a node begins with. -/
def sign? : Node → Option String
  | .unaryExpression operator true _ => some operator
  | .updateExpression operator true _ => some operator
  | _ => none

/-- What the function behind a method says: whether it is asynchronous, whether it is a generator,
and its signature and body. -/
def functionSaid? (n : Node) : Option (Bool × Bool × Said × Said) :=
  n.function?.map fun f =>
    (f.async, f.generator, (Emit.Typed.functionSignature typed f).said,
      (Emit.Typed.methodBody typed f.body).said)

/-- What a type parameter says as the variable of a mapped type: its name and its constraint. -/
def variableSaid? : Node → Option (Said × Option Said)
  | .tsTypeParameter p =>
    some ((Emit.typeParameterName typed p.name).said, p.constraint.map fun n => (typed.emit n).said)
  | _ => none

/-- All that emission asks of a node in the typed dialect. -/
structure Traits where
  kind : Kind
  operator? : Option String
  sign? : Option String
  identifierName? : Option String
  exportName? : Option String
  hasCall : Bool
  assignsObject : Bool
  leadingName? : Option String
  /-- The node under its own kind. -/
  emitted : Said
  -- the node under the kinds that parents assign
  declarator : Said
  body : Said
  object : Said
  literal : Said
  importAttribute : Said
  -- the node as a part of its parent
  importSpecifier : Said
  exportSpecifier : Said
  quasi : Said
  loopHead : Said
  definite : Said
  moduleName : Said
  moduleRest : Said
  methodFunction : Option (Bool × Bool × Said × Said)
  mappedVariable : Option (Said × Option Said)

/-- The traits of a node. -/
def traits (n : Node) : Traits where
  kind := n.kind.concrete
  operator? := n.operator?
  sign? := n.sign?
  identifierName? := n.identifierName?
  exportName? := n.exportName?
  hasCall := n.hasCall
  assignsObject := Emit.assignsObject n
  leadingName? := (Emit.leadingName n).toOption
  emitted := (typed.emit n).said
  declarator := (Emit.Typed.variableDeclarator typed n).said
  body := (Emit.block typed n).said
  object := (Emit.objectExpression typed n).said
  literal := (Emit.literal n).said
  importAttribute := (Emit.importAttribute typed n).said
  importSpecifier := (Emit.importSpecifier .typed n).said
  exportSpecifier := (Emit.exportSpecifier .typed n).said
  quasi := (Emit.templateElement n).said
  loopHead := (Emit.loopHead typed n).said
  definite := (Emit.Typed.declared typed n true).said
  moduleName := (Emit.moduleNamePart typed n).said
  moduleRest := (Emit.moduleRest typed (some n)).said
  methodFunction := n.functionSaid?
  mappedVariable := n.variableSaid?

/-! ## §3. Representatives. -/

/-- One node for all those with the same traits. -/
noncomputable def rep (n : Node) : Node := Function.invFun traits n.traits

/-- A representative has the traits of its class. -/
theorem traits_rep (n : Node) : n.rep.traits = n.traits := Function.invFun_eq ⟨n, rfl⟩

/-- Nodes with the same traits have one representative. -/
theorem rep_eq_of_traits {m n : Node} (h : m.traits = n.traits) : m.rep = n.rep :=
  congrArg (Function.invFun traits) h

end Node

end Estree
