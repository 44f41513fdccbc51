import SemanticHighlight.Keyed
import SemanticHighlight.Path
import SemanticHighlight.Worker.Program

/-!
# File trees

Directories, files, programs and devices under one root directory, and what opening and reading them
gives. A path is followed name by name, from the root or, if it does not begin with a slash, from a
directory that is given with it; every name but the last has to be a directory's, and the last one
too if a slash follows it. A location may be a link, another name of what stands somewhere else.
-/

set_option autoImplicit false

namespace SemanticHighlight

/-- What can be written to without being changed. -/
inductive Device where
  | void
  | output
  /-- The diagnostics of the program that opens it. -/
  | diagnostics
  deriving DecidableEq, Repr

inductive FileEntry where
  | directory
  | file (content : Bytes)
  | program (run : Program)
  | device (device : Device)

namespace FileEntry

def isDirectory : FileEntry → Bool
  | .directory => true
  | _ => false

end FileEntry

/-- The names on the way from the root. -/
abbrev Location := List String

structure FileTree where
  entries : Keyed Location FileEntry := {}
  /-- Where the links lead: to locations that are no links. -/
  links : Keyed Location Location := {}
  /-- Directories in and below which nothing can be made. -/
  sealed : List Location := []

namespace FileTree

def find? (t : FileTree) (l : Location) : Option FileEntry :=
  if l = [] then some .directory else t.entries.get? l

def put (t : FileTree) (l : Location) (e : FileEntry) : FileTree :=
  { t with entries := t.entries.set l e }

def follow (t : FileTree) (l : Location) : Location := (t.links.get? l).getD l

def maxName : Nat := 255

def maxPath : Nat := 4095

def isSealed (t : FileTree) (dir : Location) : Bool := t.sealed.any (·.isPrefixOf dir)

/-- Why a directory can have nothing of a name. -/
def nameError? (t : FileTree) (dir : Location) (name : String) : Option IoError :=
  if name.utf8ByteSize ≤ maxName then none
  else some (if t.isSealed dir then .noEntry else .nameTooLong)

/-- Where names lead from a directory. The last name need not exist; the directory it stands in
does. -/
def walk (t : FileTree) (l : Location) : List String → Except IoError Location
  | [] => .ok l
  | name :: names =>
    match t.find? l with
    | none => .error .noEntry
    | some .directory =>
      if name = "." then t.walk l names
      else if name = ".." then t.walk l.dropLast names
      else match t.nameError? l name with
        | some e => .error e
        | none => t.walk (t.follow (l ++ [name])) names
    | some _ => .error .notDirectory

/-- Why a path cannot be followed in any tree. -/
def pathError? (path : String) : Option IoError :=
  if '\x00' ∈ path.toList then some .zeroInName
  else if path = "" then some .noEntry
  else if maxPath < path.utf8ByteSize then some .nameTooLong
  else none

def origin (path : String) (here : Location) : Location := if Path.isAbsolute path then [] else here

def locate (t : FileTree) (path : String) (here : Location := []) : Except IoError Location :=
  match pathError? path with
  | some e => .error e
  | none =>
    let names := Path.names path
    t.walk (origin path here) (if Path.endsWithSlash path then names ++ ["."] else names)

def open? (t : FileTree) (path : String) (here : Location := []) : Except IoError FileEntry :=
  match t.locate path here with
  | .error e => .error e
  | .ok l =>
    match t.find? l with
    | none => .error .noEntry
    | some e => .ok e

def exists? (t : FileTree) (path : String) (here : Location := []) : Bool :=
  match t.open? path here with
  | .ok _ => true
  | .error _ => false

def isDirectory (t : FileTree) (path : String) (here : Location := []) : Bool :=
  match t.open? path here with
  | .ok e => e.isDirectory
  | .error _ => false

def readBytes (t : FileTree) (path : String) (here : Location := []) : Except IoError Bytes :=
  match t.open? path here with
  | .error e => .error e
  | .ok .directory => .error .isDirectory
  | .ok (.file content) => .ok content
  | .ok (.program _) => .error .notText
  | .ok (.device _) => .ok []

def readText (t : FileTree) (path : String) (here : Location := []) : Except IoError String :=
  match t.readBytes path here with
  | .error e => .error e
  | .ok bs =>
    match Text.ofBytes? bs with
    | some s => .ok s
    | none => .error .notText

def run (t : FileTree) (path : String) (here : Location := []) : Except IoError Program :=
  match t.open? path here with
  | .error e => .error e
  | .ok (.program p) => .ok p
  | .ok _ => .error .permissionDenied

end FileTree

end SemanticHighlight
