import Estree.CommandLine.Run

/-!
# Files in memory

A folder holds files by their paths. A command can be run on a folder and an input stream instead of
a disk; what it prints and what it writes is then part of the result.
-/

namespace Estree

namespace CommandLine

/-! ## §1. Folders. -/

/-- A file: the names on the way to it, and its bytes. -/
structure File where
  path : List String
  bytes : ByteArray

/-- Files by their paths. The folders on the way to a file exist, and no others. -/
structure Folder where
  files : List File

namespace Folder

/-- Whether a path is that of a folder. -/
def isFolder (f : Folder) (path : List String) : Bool :=
  path.isEmpty || f.files.any fun file => path.isPrefixOf file.path && path != file.path

/-- The bytes of a file. -/
def get? (f : Folder) (path : List String) : Option ByteArray :=
  (f.files.find? fun file => file.path == path).map File.bytes

/-- Replaces a file or adds it. -/
def put (f : Folder) (path : List String) (bytes : ByteArray) : Folder :=
  ⟨⟨path, bytes⟩ :: f.files.filter fun file => file.path != path⟩

/-- Follows the steps of a path from a place; every step has to start from a folder. -/
def follow (f : Folder) (place : List String) : List String → Option (List String)
  | [] => some place
  | step :: rest =>
    if !f.isFolder place then none
    else if step = "" ∨ step = "." then f.follow place rest
    else if step = ".." then if place.isEmpty then none else f.follow place.dropLast rest
    else f.follow (place ++ [step]) rest

/-- The place that a path leads to; a path from the root of a disk leads out of the folder. -/
def locate (f : Folder) (path : String) : Option (List String) :=
  match path.splitOn "/" with
  | "" :: _ => none
  | steps => f.follow [] steps

/-- The text of a file, if the file exists and is text. -/
def readText (f : Folder) (path : String) : Option String :=
  ((f.locate path).bind f.get?).bind String.fromUTF8?

/-- Writes a file, if its folder exists and it is no folder itself. -/
def writeText (f : Folder) (path text : String) : Option Folder :=
  match f.locate path with
  | none => none
  | some place => if f.isFolder place then none else some (f.put place text.toUTF8)

end Folder

/-! ## §2. Running in memory. -/

/-- The state of a run in memory. -/
structure Memory where
  folder : Folder
  input : ByteArray
  printed : String := ""

/-- The world of a run in memory. -/
def memoryWorld : World (StateM Memory) where
  readFile path := do return (← get).folder.readText path
  readInput := do return String.fromUTF8? (← get).input
  writeFile path text := do
    match (← get).folder.writeText path text with
    | none => return false
    | some folder =>
      modify fun s => { s with folder := folder }
      return true
  print text := modify fun s => { s with printed := s.printed ++ text }

/-- Runs a command in memory. -/
def runInMemory (args : List String) (s : Memory) : Ending × Memory :=
  (run memoryWorld args : StateM Memory Ending) s

end CommandLine

end Estree
