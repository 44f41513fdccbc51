/-!
# Kind tags and languages

A tag is the one-character name of a kind of identifier. A profile is written for a language; in the
base language a reference to a type is never resolved further.
-/

set_option autoImplicit false

namespace SemanticHighlight

structure Tag where
  letter : Char
  deriving DecidableEq, Repr

namespace Tag

def classes : Tag := ⟨'c'⟩
def directives : Tag := ⟨'d'⟩
def enumConstants : Tag := ⟨'e'⟩
def functions : Tag := ⟨'f'⟩
def enums : Tag := ⟨'g'⟩
def members : Tag := ⟨'m'⟩
def namespaces : Tag := ⟨'n'⟩
def packages : Tag := ⟨'p'⟩
def structs : Tag := ⟨'s'⟩
def types : Tag := ⟨'t'⟩
def unions : Tag := ⟨'u'⟩
def globals : Tag := ⟨'v'⟩
def methods : Tag := ⟨'M'⟩
def operators : Tag := ⟨'O'⟩
def templates : Tag := ⟨'T'⟩

end Tag

inductive Language where
  | c
  | cpp
  | go
  | other
  deriving DecidableEq, Repr

namespace Language

def isBase (l : Language) : Bool := l = .c

def name : Language → String
  | .c => "c"
  | .cpp => "cpp"
  | .go => "go"
  | .other => "other"

def ofName? (s : String) : Option Language :=
  if s = "c" then some .c
  else if s = "cpp" then some .cpp
  else if s = "go" then some .go
  else if s = "other" then some .other
  else none

theorem ofName?_name (l : Language) : ofName? l.name = some l := by
  cases l <;> rfl

end Language

end SemanticHighlight
