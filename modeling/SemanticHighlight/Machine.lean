import SemanticHighlight.FileTree.Change

/-!
# Machines

What a command finds where it is run: files, the directory it is run in and environment variables.
A program that is named without a slash is searched for in the directories of the search path.
-/

set_option autoImplicit false

namespace SemanticHighlight

structure Machine where
  files : FileTree := {}
  directory : String := "/"
  environment : Keyed String String := {}

namespace Machine

def env? (m : Machine) (name : String) : Option String := m.environment.get? name

/-- Where a path that does not begin with a slash starts. -/
def here (m : Machine) : Location := Path.names m.directory

/-- The directories of a search path; the empty one is the directory the command is run in. One that
is too long for a path is left out if it is the last, and counts as the empty one otherwise. -/
def searchDirectories (path : String) : List String :=
  let dirs := (Text.pieces ':' path.toList).map String.ofList
  let short (dir : String) : Bool := dir.utf8ByteSize ≤ FileTree.maxPath
  dirs.dropLast.map (fun dir => if short dir then dir else "") ++ dirs.getLast?.toList.filter short

def searchPath (m : Machine) : List String :=
  searchDirectories ((m.env? "PATH").getD "/bin:/usr/bin")

/-- The characters up to the first that does not fit into a number of bytes, that one included. -/
def throughLimit : Nat → List Char → List Char
  | _, [] => []
  | limit, c :: cs =>
    if c.utf8Size ≤ limit then c :: throughLimit (limit - c.utf8Size) cs else [c]

/-- The path of a name in a directory of the search path. Of a name that is too long for any
directory no more is kept than makes it too long, so that the path may still be short enough. -/
def programPath (dir name : String) : String :=
  let name := String.ofList (throughLimit FileTree.maxName name.toList)
  if dir = "" then name else dir ++ "/" ++ name

/-- The first program of a name in a list of directories. If there is none, a program that may not
be run decides the failure, and otherwise the last directory. -/
def search (m : Machine) (name : String) (failure : IoError) :
    List String → Except IoError Program
  | [] => .error failure
  | dir :: dirs =>
    match m.files.run (programPath dir name) m.here with
    | .ok program => .ok program
    | .error .permissionDenied => m.search name .permissionDenied dirs
    | .error e =>
      if e = .noEntry ∨ e = .notDirectory then
        m.search name (if failure = .permissionDenied then failure else e) dirs
      else .error e

def find (m : Machine) (program : String) : Except IoError Program :=
  if program = "" then .error .noEntry
  else if '/' ∈ program.toList then m.files.run program m.here
  else m.search program .noChild m.searchPath

def maxArgument : Nat := 131071

def launch (m : Machine) : Launcher := fun program args =>
  if (program :: args).any (fun s => '\x00' ∈ s.toList) then .error .zeroInArgument
  else match m.find program with
    | .error e => .error e
    | .ok p => if args.any (maxArgument < ·.utf8ByteSize) then .error .argumentTooLong else .ok p

/-- Adds what a program has left in files. What cannot be added is lost. -/
def add (m : Machine) (a : Addition) : Machine :=
  { m with files := (m.files.appendFile a.path a.content m.here).2 }

end Machine

end SemanticHighlight
