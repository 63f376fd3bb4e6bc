import Estree.CommandLine.Arguments
import Estree.Generator

/-!
# Running a command

A command reads its configuration and its input, generates, and writes the result. It works over any
world that can read and write files, so that it can be run on a disk as well as on files held in
memory. The first step that fails ends it, and nothing is written then.
-/

namespace Estree

namespace CommandLine

/-- The files and streams that a command works on. What is no text cannot be read. -/
structure World (m : Type → Type) where
  readFile : String → m (Option String)
  readInput : m (Option String)
  /-- Says whether the file was written. -/
  writeFile : String → String → m Bool
  print : String → m Unit

/-- Why a command failed. -/
inductive Failure where
  | unreadableConfig (path : String)
  | invalidConfig (path : String) (e : LoadError)
  | unreadable (path : String)
  | unreadableInput
  | generation (e : GenerateError)
  | unwritable (path : String)

/-- The wording of a failure. -/
def Failure.headline : Failure → String
  | .unreadableConfig path => "cannot read config " ++ path
  | .invalidConfig path _ => "invalid config " ++ path
  | .unreadable path => "cannot read " ++ path
  | .unreadableInput => "cannot read stdin"
  | .generation _ => "generation failed"
  | .unwritable path => "cannot write " ++ path

/-- How a command ends. -/
inductive Ending where
  | success
  | failure (f : Failure)
  | misuse

/-- The exit code of an ending. -/
def Ending.code : Ending → Nat
  | .success => 0
  | .failure _ => 1
  | .misuse => 2

/-- The version of the program. -/
def versionLine : String := "tsgen 0.1.0\n"

/-- The layout with the flags of the command over it. -/
def Settings.layout (s : Settings) (base : Layout) : Layout where
  indent :=
    if s.tabs then "\t"
    else
      match s.indent with
      | some width => String.ofList (List.replicate width ' ')
      | none => base.indent
  lineEnd := if s.crlf then "\r\n" else base.lineEnd
  level := base.level

section

variable {m : Type → Type} [Monad m]

/-- Reads the configuration, if there is one. -/
def World.config (w : World m) : Option String → m (Except Failure Layout)
  | none => pure (.ok {})
  | some path => do
    match ← w.readFile path with
    | none => pure (.error (.unreadableConfig path))
    | some text => pure ((Layout.ofText text).mapError (.invalidConfig path))

/-- Reads the tree. -/
def World.tree (w : World m) : Option String → m (Except Failure String)
  | none => do
    match ← w.readInput with
    | none => pure (.error .unreadableInput)
    | some text => pure (.ok text)
  | some path => do
    match ← w.readFile path with
    | none => pure (.error (.unreadable path))
    | some text => pure (.ok text)

/-- Delivers the source text. -/
def World.deliver (w : World m) (source : String) : Option String → m Ending
  | none => do
    w.print source
    pure .success
  | some path => do
    if ← w.writeFile path source then pure .success else pure (.failure (.unwritable path))

/-- Generates as the settings say. -/
def Settings.run (w : World m) (s : Settings) : m Ending := do
  match ← w.config s.config with
  | .error f => pure (.failure f)
  | .ok base =>
    match ← w.tree s.input with
    | .error f => pure (.failure f)
    | .ok text =>
      match (Generator.ofDialect (s.dialect.getD .typed) (s.layout base)).generateText text with
      | .error e => pure (.failure (.generation e))
      | .ok source => w.deliver source s.output

/-- Runs the command with the arguments. -/
def run (w : World m) (args : List String) : m Ending :=
  match Request.ofArgs args with
  | .misuse => pure .misuse
  | .version => do
    w.print versionLine
    pure .success
  | .generate s => s.run w

end

end CommandLine

end Estree
