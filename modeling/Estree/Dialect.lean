import Estree.Doc

/-!
# Dialects

The plain dialect is JavaScript. The typed dialect is TypeScript: it writes what the plain dialect
leaves out, such as annotations, modifiers and type arguments.
-/

namespace Estree

/-- The language that is written. -/
inductive Dialect where
  | plain
  | typed
  deriving DecidableEq, Repr

namespace Dialect

/-- A document that only the typed dialect writes. -/
def typedOnly (d : Dialect) (doc : Doc) : Doc :=
  match d with
  | .plain => .nil
  | .typed => doc

end Dialect

end Estree
