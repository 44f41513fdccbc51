import SemanticHighlight.Highlight.Tag
import SemanticHighlight.Record.Basic
import SemanticHighlight.Text.Lines
import SemanticHighlight.Tokenizer.Word

/-!
# The tokenizer

A worker's reading of a source text, without a parser. What a word is, is guessed from its line: a
word after a declaring keyword has the keyword's kind, a word before an opening parenthesis is a
function, a word right after a point is a member, and a word in capitals is a macro. Every word with
a kind becomes one record.
-/

set_option autoImplicit false

namespace SemanticHighlight.Tokenizer

def keywords : List String := [
  "break", "case", "char", "const", "continue", "default", "else", "for", "func", "if",
  "import", "int", "long", "package", "return", "short", "sizeof", "static", "struct",
  "switch", "type", "typedef", "union", "unsigned", "var", "void", "while", "enum", "class",
  "namespace"]

/-- The keywords that declare the word after them, and its kind. -/
def declaring : List (String × Tag) := [
  ("struct", .structs),
  ("union", .unions),
  ("enum", .enums),
  ("class", .classes),
  ("namespace", .namespaces),
  ("package", .packages),
  ("typedef", .types),
  ("type", .types),
  ("func", .functions)]

def declaredBy? (previous : List Char) : Option Tag :=
  (declaring.find? fun d => d.1.toList = previous).map Prod.snd

def isSpace (c : Char) : Bool := c = ' ' || c = '\t' || c = '\n' || c = '\x0C' || c = '\r'

def isCalled (w : Word) : Bool := (w.rest.dropWhile isSpace).head? = some '('

def isSelected (w : Word) : Bool := w.before? = some '.'

def isCapital (c : Char) : Bool := c.isUpper || c = '_' || c.isDigit

def isMacro (w : Word) : Bool := w.text.length > 1 && w.text.all isCapital

/-- The kind of a word, after the word before it on its line. -/
def kind? (previous : Option (List Char)) (w : Word) : Option Tag :=
  if keywords.any fun k => k.toList = w.text then none
  else match previous.bind declaredBy? with
    | some tag => some tag
    | none =>
      if isCalled w then some .functions
      else if isSelected w then some .members
      else if isMacro w then some .directives
      else none

def row (line : Nat) (tag : Tag) (w : Word) : List Char :=
  Record.row tag.letter line w.column line w.stop w.text ++ ['\n']

def rows (line : Nat) : Option (List Char) → List Word → List (List Char)
  | _, [] => []
  | previous, w :: ws =>
    ((kind? previous w).map (row line · w)).toList ++ rows line (some w.text) ws

def lineRows (line : Nat) (text : List Char) : List (List Char) := rows line none (words text)

def rowsFrom (line : Nat) : List (List Char) → List (List Char)
  | [] => []
  | l :: ls => lineRows line l ++ rowsFrom (line + 1) ls

def tokenize (source : String) : String :=
  String.ofList (rowsFrom 0 (Text.lines source.toList)).flatten

end SemanticHighlight.Tokenizer
