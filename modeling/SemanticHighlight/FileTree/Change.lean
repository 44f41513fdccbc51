import SemanticHighlight.FileTree.Basic

/-!
# Changes to file trees

Making directories, writing files and adding to them. What a path would make stands in a directory
that exists, and its last name is no dot and no pair of dots, which are names of directories that
exist already. A file is never made by a path that ends with a slash.
-/

set_option autoImplicit false

namespace SemanticHighlight.FileTree

def place (t : FileTree) (path : String) (here : Location) : Except IoError (Location × String) :=
  match pathError? path with
  | some e => .error e
  | none =>
    let names := Path.names path
    match t.walk (origin path here) (names.dropLast ++ ["."]) with
    | .error e => .error e
    | .ok dir => .ok (dir, names.getLast?.getD ".")

def isDots (name : String) : Bool := name = "." || name = ".."

/-- What has a name in a directory. A name that cannot be given is an error. -/
def look (t : FileTree) (dir : Location) (name : String) : Except IoError (Option FileEntry) :=
  match t.nameError? dir name with
  | some e => .error e
  | none =>
    match t.find? (t.follow (dir ++ [name])) with
    | some e => .ok (some e)
    | none => if t.isSealed dir then .error .noEntry else .ok none

def makeDirectory (t : FileTree) (path : String) (here : Location) :
    Except IoError Unit × FileTree :=
  match t.place path here with
  | .error e => (.error e, t)
  | .ok (dir, name) =>
    if isDots name then (.error .alreadyExists, t)
    else match t.look dir name with
      | .error e => (.error e, t)
      | .ok (some _) => (.error .alreadyExists, t)
      | .ok none => (.ok (), t.put (dir ++ [name]) .directory)

def ensureDirectory (t : FileTree) (path : String) (here : Location) :
    Except IoError Unit × FileTree :=
  match t.makeDirectory path here with
  | (.error .alreadyExists, t) =>
    (if t.isDirectory path here then .ok () else .error .alreadyExists, t)
  | r => r

/-- Makes the first of some paths, each the parent of the one before it, and those of the others
that are needed for that. -/
def makeMissing (t : FileTree) (here : Location) : List String → Except IoError Unit × FileTree
  | [] => (.ok (), t)
  | path :: parents =>
    match t.ensureDirectory path here with
    | (.error .noEntry, t) =>
      match t.makeMissing here parents with
      | (.error e, t) => (.error e, t)
      | (.ok (), t) => t.ensureDirectory path here
    | r => r

/-- Makes a directory and those above it. What could be made before a failure stays. -/
def makeDirectories (t : FileTree) (path : String) (here : Location := []) :
    Except IoError Unit × FileTree :=
  t.makeMissing here (Path.ancestors path)

def writeFile (t : FileTree) (path : String) (content : Bytes) (here : Location := []) :
    Except IoError Unit × FileTree :=
  match t.place path here with
  | .error e => (.error e, t)
  | .ok (dir, name) =>
    if isDots name ∨ Path.endsWithSlash path then (.error .isDirectory, t)
    else match t.look dir name with
      | .error e => (.error e, t)
      | .ok (some .directory) => (.error .isDirectory, t)
      | .ok (some (.device _)) => (.ok (), t)
      | .ok _ => (.ok (), t.put (t.follow (dir ++ [name])) (.file content))

def appendFile (t : FileTree) (path : String) (content : Bytes) (here : Location := []) :
    Except IoError Unit × FileTree :=
  match t.readBytes path here with
  | .ok old => t.writeFile path (old ++ content) here
  | .error _ => t.writeFile path content here

end SemanticHighlight.FileTree
