import SemanticHighlight.Json.Basic
import SemanticHighlight.Text.Hexadecimal

/-!
# Printing JSON

`compact` writes the tokens of a value with nothing between them. `pretty` puts each item and each
member on a line of its own, two spaces deeper than its container, and a space after each colon;
empty containers stay closed. Strings escape the quote, the backslash and the characters below
U+0020 and keep every other character.
-/

set_option autoImplicit false

namespace SemanticHighlight.Json

def escape (c : Char) : List Char :=
  if c = '"' then ['\\', '"']
  else if c = '\\' then ['\\', '\\']
  else if c = '\x08' then ['\\', 'b']
  else if c = '\x0C' then ['\\', 'f']
  else if c = '\n' then ['\\', 'n']
  else if c = '\r' then ['\\', 'r']
  else if c = '\t' then ['\\', 't']
  else if c.toNat < 0x20 then
    ['\\', 'u', '0', '0', Text.Hexadecimal.digit (c.toNat / 16), Text.Hexadecimal.digit c.toNat]
  else [c]

def literal : Option String → List Char
  | some s => '"' :: s.toList.flatMap escape ++ ['"']
  | none => "\"\\ud800\"".toList

def Token.spelling : Token → List Char
  | .openArr => ['[']
  | .closeArr => [']']
  | .openObj => ['\x7b']
  | .closeObj => ['\x7d']
  | .comma => [',']
  | .colon => [':']
  | .null => "null".toList
  | .bool b => (if b then "true" else "false").toList
  | .int n => (Text.Decimal.intText n).toList
  | .real l => l.toList
  | .text s => literal s

def compact (v : Json) : List Char := v.tokens.flatMap Token.spelling

def Token.opens : Token → Bool
  | .openArr | .openObj => true
  | _ => false

def Token.closes : Token → Bool
  | .closeArr | .closeObj => true
  | _ => false

/-- How deep the text stands after a token. -/
def Token.depth (d : Nat) (t : Token) : Nat :=
  if t.opens then d + 1 else if t.closes then d - 1 else d

def newLine (d : Nat) : List Char := '\n' :: List.replicate (2 * d) ' '

/-- The space between a token and the next one, at the depth after the token. -/
def gap (d : Nat) (t : Token) (next : Option Token) : List Char :=
  let closing := next.any Token.closes
  if t.opens then (if closing then [] else newLine d)
  else if t = .comma then newLine d
  else if t = .colon then [' ']
  else if closing then newLine (d - 1)
  else []

def layout (d : Nat) : List Token → List Char
  | [] => []
  | t :: ts => t.spelling ++ gap (t.depth d) t ts.head? ++ layout (t.depth d) ts

def pretty (v : Json) : List Char := layout 0 v.tokens

end SemanticHighlight.Json
