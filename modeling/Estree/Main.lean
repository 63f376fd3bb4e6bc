import Estree.CommandLine.Run

/-!
# The command

Runs the command line on the disk and the standard streams.
-/

namespace Estree

namespace CommandLine

/-- A result, or none if an operation on the disk failed. -/
def attempt {α : Type} (action : IO α) : IO (Option α) := do
  try return some (← action)
  catch _ => return none

/-- Reads a stream to its end. -/
partial def readAll (stream : IO.FS.Stream) (bytes : ByteArray) : IO ByteArray := do
  let chunk ← stream.read 65536
  if chunk.isEmpty then return bytes else readAll stream (bytes ++ chunk)

/-- The disk and the standard streams. -/
def diskWorld : World IO where
  readFile path := return (← attempt (IO.FS.readBinFile path)).bind String.fromUTF8?
  readInput := do
    return (← attempt (do readAll (← IO.getStdin) ByteArray.empty)).bind String.fromUTF8?
  writeFile path text := return (← attempt (IO.FS.writeFile path text)).isSome
  print text := do
    let out ← IO.getStdout
    out.putStr text
    out.flush

/-- What is said on the error stream. -/
def Ending.report : Ending → Option String
  | .success => none
  | .failure f => some ("Error: " ++ f.headline)
  | .misuse =>
    some ("usage: tsgen [INPUT] [--dialect ts|js] [--config FILE] [--indent N] [--tabs] [--crlf] "
      ++ "[-o|--output FILE] [-V|--version]")

end CommandLine

end Estree

/-- The program. -/
def main (args : List String) : IO UInt32 := do
  let ending ← Estree.CommandLine.run Estree.CommandLine.diskWorld args
  match ending.report with
  | some text => IO.eprintln text
  | none => pure ()
  return ending.code.toUInt32
