import Estree.Grammar

/-!
# Generators

A generator is a grammar with a layout. It turns a tree, or the JSON text of a tree, into source
text; on failure there is an error and no text.
-/

namespace Estree

/-- Why no source text was generated. -/
inductive GenerateError where
  /-- The JSON is no tree. -/
  | load (e : LoadError)
  /-- The tree cannot be written. -/
  | emit (e : EmitError)
  /-- Dispatch went in a circle. -/
  | unfinished

namespace GenerateError

/-- The error of a document that stops. -/
def ofHalt : Halt → GenerateError
  | .error e => .emit e
  | .unfinished => .unfinished

/-- The wording of an error. -/
def message : GenerateError → String
  | .load e => "invalid ESTree JSON: " ++ e.message
  | .emit e => e.message
  | .unfinished => "dispatch does not end"

/-- The kind of the node that an error is about. -/
def kind? : GenerateError → Option Kind
  | .emit (.unsupported k _) => some k
  | .emit (.malformed k _) => some k
  | _ => none

end GenerateError

/-- A grammar with a layout. -/
structure Generator where
  grammar : Grammar
  layout : Layout := {}

namespace Generator

/-- The generator of a dialect. -/
def ofDialect (d : Dialect) (l : Layout) : Generator := ⟨.ofDialect d, l⟩

/-- The source text of a tree. -/
def generate (g : Generator) (root : Node) : Except GenerateError String :=
  ((g.grammar.emit root).render g.layout).mapError .ofHalt

/-- The source text of a tree given as JSON text. -/
def generateText (g : Generator) (text : String) : Except GenerateError String :=
  match Node.ofText text with
  | .error e => .error (.load e)
  | .ok root => g.generate root

end Generator

end Estree
