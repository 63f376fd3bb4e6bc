import Estree.Node.Basic

/-!
# Faults of emission

Emission fails when the registry has no procedure for a kind, or when a procedure meets a node that
it cannot write. The error names the offending kind; the wording is in `EmitError.message`.
-/

namespace Estree

/-- What a procedure found wrong with a node. -/
inductive Defect where
  /-- The node is of none of these kinds. -/
  | notOneOf (kinds : List Kind)
  /-- A function has no body. -/
  | noBody
  /-- The value of a method is no function. -/
  | noFunction
  /-- A regular expression has no pattern. -/
  | noPattern
  /-- The node is no keyword type. -/
  | noKeyword
  /-- A mapped type has neither a type parameter nor a key. -/
  | noMappedKey
  /-- A template has other than one quasi more than holes. -/
  | templateCounts (quasis holes : Nat)
  deriving DecidableEq, Repr

/-- The wording of a defect. -/
def Defect.reason : Defect → String
  | .notOneOf kinds => "expected " ++ " or ".intercalate (kinds.map Kind.tag)
  | .noBody => "expected a function body"
  | .noFunction => "expected a function value"
  | .noPattern => "expected a regex pattern"
  | .noKeyword => "expected a keyword type"
  | .noMappedKey => "expected a type parameter or key"
  | .templateCounts quasis holes =>
    String.ofList (Nat.toDigits 10 quasis) ++ " quasis around "
      ++ String.ofList (Nat.toDigits 10 holes) ++ " expressions"

/-- Why a tree could not be written. -/
inductive EmitError where
  /-- The registry has no procedure for the kind under which the node was dispatched. -/
  | unsupported (kind : Kind) (node : Node)
  /-- A node of the kind is not made up as its procedure expects. -/
  | malformed (kind : Kind) (defect : Defect)

namespace EmitError

/-- The error of a node without a procedure for its own kind. -/
def ofNode (n : Node) : EmitError := .unsupported n.kind n

/-- The wording of an error. -/
def message : EmitError → String
  | .unsupported kind _ => "no generator procedure for node type " ++ kind.tag
  | .malformed kind defect => "malformed " ++ kind.tag ++ " node: " ++ defect.reason

end EmitError

end Estree
