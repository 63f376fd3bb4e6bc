import Estree.EmitError
import Estree.Writer

/-!
# Documents

A document is what a procedure has to say, step by step: pieces of text, line ends, indentation, the
steps that take the writer one level deeper and one level back, and perhaps a point at which writing
stops. `Doc.run` does the steps one after the other: everything before a stop is done, and the depth
at the stop is left in place. Nothing but the steps themselves brings the depth back, so a document
that goes deeper has to come back on every path.

A document may be anchored: while it is written, the depth at which it started is remembered, and
indentation can be written relative to that depth, whatever the depth is by then.
-/

namespace Estree

/-! ## §1. Documents. -/

/-- Why writing stops before the end of a document. -/
inductive Halt where
  /-- The tree cannot be written. -/
  | error (e : EmitError)
  /-- The bound on nested dispatches is used up. -/
  | unfinished

/-- What is to be written. -/
inductive Doc where
  | nil
  | text (s : String)
  | lineEnd
  /-- The indentation of the current depth. -/
  | indent
  /-- The indentation of the remembered depth and some levels more. -/
  | indentAt (levels : Nat)
  /-- From here on one level deeper. -/
  | deeper
  /-- From here on one level back, and no further than level zero. -/
  | shallower
  | append (a b : Doc)
  /-- A document during which the depth at its start is remembered. -/
  | anchored (d : Doc)
  /-- Writing stops here. -/
  | stop (h : Halt)

namespace Doc

instance : Append Doc := ⟨append⟩

instance : Coe String Doc := ⟨text⟩

instance : Inhabited Doc := ⟨nil⟩

/-- Stops with an error. -/
def fail (e : EmitError) : Doc := stop (.error e)

/-- Stops because of a defect of a node. -/
def malformed (n : Node) (d : Defect) : Doc := fail (.malformed n.kind d)

/-- Stops because a node is of none of the kinds that can stand in its place. -/
def expected (n : Node) (kinds : List Kind) : Doc := malformed n (.notOneOf kinds)

/-- A document that is there only under a condition. -/
def onlyIf (b : Bool) (d : Doc) : Doc := if b then d else nil

/-- The document of a value that may be absent. -/
def ofOption {α : Type} (x : Option α) (f : α → Doc) : Doc :=
  match x with
  | none => nil
  | some a => f a

/-- The document of a value, or a stop at the error in its place. -/
def ofExcept {α : Type} (x : Except EmitError α) (f : α → Doc) : Doc :=
  match x with
  | .ok a => f a
  | .error e => fail e

/-- The documents one after the other. -/
def concat : List Doc → Doc
  | [] => nil
  | d :: rest => d ++ concat rest

/-- The documents with a separator between them. -/
def join (sep : Doc) : List Doc → Doc
  | [] => nil
  | [d] => d
  | d :: rest => d ++ sep ++ join sep rest

/-- The document in parentheses. -/
def parens (d : Doc) : Doc := "(" ++ d ++ ")"

/-- The document in parentheses under a condition. -/
def parensIf (b : Bool) (d : Doc) : Doc := if b then d.parens else d

/-- The document in brackets. -/
def brackets (d : Doc) : Doc := "[" ++ d ++ "]"

/-- The document in braces. -/
def braces (d : Doc) : Doc := "\x7b" ++ d ++ "\x7d"

/-- A line of its own at the current depth. -/
def line (d : Doc) : Doc := indent ++ d ++ lineEnd

/-! ## §2. Writing. -/

/-- How writing a document ends. -/
abbrev Outcome := Except Halt Unit

/-- Writes a document, `anchor` being the remembered depth. -/
def runFrom : Doc → (anchor : Nat) → Writer → Outcome × Writer
  | nil, _, w => (.ok (), w)
  | text s, _, w => (.ok (), w.write s)
  | lineEnd, _, w => (.ok (), w.writeLineEnd)
  | indent, _, w => (.ok (), w.writeIndent)
  | indentAt levels, anchor, w => (.ok (), w.writeIndentAt (anchor + levels))
  | deeper, _, w => (.ok (), w.deeper)
  | shallower, _, w => (.ok (), w.shallower)
  | append a b, anchor, w =>
    match a.runFrom anchor w with
    | (.ok (), w) => b.runFrom anchor w
    | (.error h, w) => (.error h, w)
  | anchored d, _, w => d.runFrom w.depth w
  | stop h, _, w => (.error h, w)

/-- Writes a document. -/
def run (d : Doc) (w : Writer) : Outcome × Writer := d.runFrom w.depth w

/-- The text of a document in a layout. -/
def render (d : Doc) (l : Layout) : Except Halt String :=
  match d.run (.ofLayout l) with
  | (.ok (), w) => .ok w.text
  | (.error h, _) => .error h

end Doc

end Estree
