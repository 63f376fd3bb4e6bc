import Estree.Dialect

/-!
# Command line arguments

`Request.ofArgs` reads the arguments from left to right. The first fault decides, and so does the
first wish to see the version; what follows is not looked at. An option takes its value from the
same argument (`--indent=4`, `-oout`, `-o=out`) or from the next one, which must not look like an
option. After `--` every argument is the input.
-/

namespace Estree

namespace CommandLine

/-! ## §1. Settings. -/

/-- What the arguments ask for. -/
structure Settings where
  input : Option String := none
  dialect : Option Dialect := none
  config : Option String := none
  indent : Option Nat := none
  tabs : Bool := false
  crlf : Bool := false
  output : Option String := none
  deriving DecidableEq, Repr

/-- What is to be done. -/
inductive Request where
  /-- Generate source text. -/
  | generate (s : Settings)
  /-- Show the version. -/
  | version
  /-- The arguments are wrong. -/
  | misuse
  deriving DecidableEq, Repr

/-- An option that has a value. -/
inductive Valued where
  | dialect | config | indent | output
  deriving DecidableEq, Repr

/-- An option without a value. -/
inductive Switch where
  | tabs | crlf | version
  deriving DecidableEq, Repr

/-! ## §2. Values. -/

/-- The dialect of a name. -/
def dialect? : String → Option Dialect
  | "ts" => some .typed
  | "js" => some .plain
  | _ => none

/-- The largest width of indentation. -/
def maxWidth : Nat := Nat.pow 2 64 - 1

/-- The number that decimal digits are. -/
def decimal? (cs : List Char) : Option Nat :=
  if cs.isEmpty ∨ !cs.all Char.isDigit then none
  else some (cs.foldl (fun n c => n * 10 + (c.toNat - '0'.toNat)) 0)

/-- A width: decimal digits, perhaps after a plus sign. -/
def width? (s : String) : Option Nat :=
  let digits := match s.toList with
    | '+' :: cs => cs
    | cs => cs
  (decimal? digits).filter (· ≤ maxWidth)

/-- A path; the empty text is none. -/
def path? (s : String) : Option String := if s.isEmpty then none else some s

namespace Settings

/-- Gives an option its value, once. -/
def set? (s : Settings) (o : Valued) (value : String) : Option Settings :=
  match o with
  | .dialect =>
    if s.dialect.isSome then none else (dialect? value).map fun d => { s with dialect := some d }
  | .config =>
    if s.config.isSome then none else (path? value).map fun p => { s with config := some p }
  | .indent =>
    if s.indent.isSome then none else (width? value).map fun n => { s with indent := some n }
  | .output =>
    if s.output.isSome then none else (path? value).map fun p => { s with output := some p }

/-- Takes an argument as the input, once. -/
def setInput? (s : Settings) (value : String) : Option Settings :=
  if s.input.isSome then none else (path? value).map fun p => { s with input := some p }

/-- The request of settings that are complete: a width and tabs exclude each other. -/
def request (s : Settings) : Request :=
  if s.indent.isSome ∧ s.tabs then .misuse else .generate s

end Settings

/-! ## §3. Arguments. -/

/-- An argument, as it looks. -/
inductive Argument where
  /-- `--`. -/
  | separator
  /-- An option with a value, perhaps in the same argument. -/
  | valued (o : Valued) (value : Option String)
  | switch (s : Switch)
  | input (text : String)
  /-- No option has this name, or it takes no value. -/
  | unknown
  deriving DecidableEq, Repr

namespace Argument

/-- A long option by its name and the value after the equals sign. -/
def long (name : String) (value : Option String) : Argument :=
  match name, value with
  | "dialect", value => .valued .dialect value
  | "config", value => .valued .config value
  | "indent", value => .valued .indent value
  | "output", value => .valued .output value
  | "tabs", none => .switch .tabs
  | "crlf", none => .switch .crlf
  | "version", none => .switch .version
  | _, _ => .unknown

/-- The text before the first equals sign, and the text after it if there is one. -/
def splitValue (cs : List Char) : String × Option String :=
  let name := String.ofList (cs.takeWhile (· ≠ '='))
  match cs.dropWhile (· ≠ '=') with
  | [] => (name, none)
  | _ :: value => (name, some (String.ofList value))

/-- The value after a short option; an equals sign before it is dropped. -/
def shortValue : List Char → Option String
  | [] => none
  | '=' :: cs => some (String.ofList cs)
  | cs => some (String.ofList cs)

/-- An argument by its characters. -/
def ofChars : List Char → Argument
  | ['-', '-'] => .separator
  | '-' :: '-' :: cs => let (name, value) := splitValue cs; long name value
  | ['-'] => .input "-"
  | '-' :: 'o' :: cs => .valued .output (shortValue cs)
  | '-' :: 'V' :: _ => .switch .version
  | '-' :: _ => .unknown
  | cs => .input (String.ofList cs)

/-- Whether a text may be the value of the option before it: a hyphen alone may. -/
def isValue (s : String) : Bool :=
  match s.toList with
  | ['-'] => true
  | '-' :: _ => false
  | _ => true

end Argument

/-- The request of inputs after `--`. -/
def Request.ofInputs (s : Settings) : List String → Request
  | [] => s.request
  | arg :: rest =>
    match s.setInput? arg with
    | none => .misuse
    | some s => ofInputs s rest

/-- Reads the arguments that are left. -/
def Request.ofRest (s : Settings) : List String → Request
  | [] => s.request
  | arg :: rest =>
    match Argument.ofChars arg.toList, rest with
    | .separator, rest => ofInputs s rest
    | .unknown, _ => .misuse
    | .switch .version, _ => .version
    | .switch .tabs, rest => if s.tabs then .misuse else ofRest { s with tabs := true } rest
    | .switch .crlf, rest => if s.crlf then .misuse else ofRest { s with crlf := true } rest
    | .input text, rest =>
      match s.setInput? text with
      | none => .misuse
      | some s => ofRest s rest
    | .valued o (some value), rest =>
      match s.set? o value with
      | none => .misuse
      | some s => ofRest s rest
    | .valued _ none, [] => .misuse
    | .valued o none, value :: rest =>
      if Argument.isValue value then
        match s.set? o value with
        | none => .misuse
        | some s => ofRest s rest
      else .misuse

/-- The request of the arguments. -/
def Request.ofArgs (args : List String) : Request := .ofRest {} args

end CommandLine

end Estree
