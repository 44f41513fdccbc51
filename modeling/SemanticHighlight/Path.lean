import SemanticHighlight.Text.Lines

/-!
# Paths

Names of files as texts, with slashes between the parts. Empty parts, and parts of one dot after the
first part, name nothing. The parent of a path is the path before its last part that names
something; what is kept of a path is kept as it is written.
-/

set_option autoImplicit false

namespace SemanticHighlight.Path

def isAbsolute (path : String) : Bool := path.toList.head? = some '/'

def endsWithSlash (path : String) : Bool := path.toList.getLast? = some '/'

def join (base path : String) : String :=
  if isAbsolute path then path
  else if base = "" ∨ endsWithSlash base then base ++ path
  else base ++ "/" ++ path

def namesNothing (part : List Char) : Bool := part = [] || part = ['.']

/-- The parts up to the last one that names something. -/
def trimParts (parts : List (List Char)) : List (List Char) :=
  (parts.reverse.dropWhile namesNothing).reverse

def parentChars? (path : List Char) : Option (List Char) :=
  match Text.pieces '/' path with
  | [] => none
  | first :: rest =>
    match (trimParts rest).reverse with
    | [] => if first = [] then none else some []
    | _ :: before =>
      let kept := trimParts before.reverse
      some (if first = [] ∧ kept = [] then ['/'] else List.intercalate ['/'] (first :: kept))

/-- None for the root directory and for the empty path. -/
def parent? (path : String) : Option String := (parentChars? path.toList).map String.ofList

/-- At most `n` paths, each the parent of the one before, up to the last one that has a parent. -/
def upward : Nat → String → List String
  | 0, _ => []
  | n + 1, path =>
    match parent? path with
    | none => []
    | some parent => path :: upward n parent

/-- The path and its parents that have parents, from the longest to the shortest. -/
def ancestors (path : String) : List String := upward path.length path

def names (path : String) : List String :=
  ((Text.pieces '/' path.toList).filter (· ≠ [])).map String.ofList

end SemanticHighlight.Path
