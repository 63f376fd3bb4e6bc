import Estree.Layout

/-!
# The writer

A writer appends to the text written so far. It knows the layout and the current depth of
indentation; the depth never falls below zero.
-/

namespace Estree

/-- The text written so far, with the layout and the current depth. -/
structure Writer where
  indent : String
  lineEnd : String
  depth : Nat
  text : String

namespace Writer

/-- A writer with nothing written, at the starting level of the layout. -/
def ofLayout (l : Layout) : Writer :=
  { indent := l.indent, lineEnd := l.lineEnd, depth := l.level, text := "" }

/-- Appends a text as it is. -/
def write (w : Writer) (s : String) : Writer := { w with text := w.text ++ s }

/-- Appends the line terminator. -/
def writeLineEnd (w : Writer) : Writer := w.write w.lineEnd

/-- Appends one unit of indentation for each level. -/
def writeIndentAt (w : Writer) : (level : Nat) → Writer
  | 0 => w
  | level + 1 => (w.write w.indent).writeIndentAt level

/-- Appends the indentation of the current depth. -/
def writeIndent (w : Writer) : Writer := w.writeIndentAt w.depth

/-- Goes one level deeper. -/
def deeper (w : Writer) : Writer := { w with depth := w.depth + 1 }

/-- Goes back one level, and no further than level zero. -/
def shallower (w : Writer) : Writer := { w with depth := w.depth - 1 }

end Writer

end Estree
