import Estree.Emit
import Estree.Node.Height
import Estree.Registry

/-!
# Grammars

A grammar is a registry with a precedence table. It dispatches a node under a kind to the procedure
that the registry binds to the kind, and the procedure dispatches the parts of the node in turn.

`Grammar.emitAs` bounds the number of nested dispatches. A node is dispatched at most three times
before one of its descendants is, unless a registry makes procedures call each other for ever, so
three dispatches for each level of the tree are enough (`Grammar.scope`).
-/

namespace Estree

/-- A registry with a precedence table. -/
structure Grammar where
  registry : Registry
  table : PrecedenceTable

namespace Grammar

/-- The plain dialect. -/
def javaScript : Grammar := ⟨.base, .javaScript⟩

/-- The typed dialect. -/
def typeScript : Grammar := ⟨.full, .typeScript⟩

/-- The grammar of a dialect. -/
def ofDialect : Dialect → Grammar
  | .plain => javaScript
  | .typed => typeScript

/-- The document of a node under a kind, with at most `bound` nested dispatches. -/
def emitAs (g : Grammar) : (bound : Nat) → Kind → Node → Doc
  | 0, _, _ => .stop .unfinished
  | bound + 1, k, n =>
    match g.registry.get? k with
    | none => .fail (.unsupported k n)
    | some p => p.doc { emitAs := g.emitAs bound, rank := g.table.rank } n

/-- How many nested dispatches a node needs at most. -/
def bound (n : Node) : Nat := 3 * n.height

/-- The dispatch of any node within its own bound, and the ranks of the grammar. -/
def scope (g : Grammar) : Scope where
  emitAs k n := g.emitAs (bound n) k n
  rank := g.table.rank

/-- The document of a node under its own kind. -/
def emit (g : Grammar) (n : Node) : Doc := g.scope.emit n

end Grammar

end Estree
