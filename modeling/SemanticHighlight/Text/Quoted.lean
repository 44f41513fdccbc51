import SemanticHighlight.Text.Hexadecimal
import SemanticHighlight.Text.Plain

/-!
# Quoted text

Text between double quotes, for messages. The zero character, tab, line feed, carriage return,
quote and backslash have short escapes; every other character that is not shown as it is appears as
its code point in hexadecimal.
-/

set_option autoImplicit false

namespace SemanticHighlight.Text

def quotedChar (c : Char) : List Char :=
  if c = '\x00' then ['\\', '0']
  else if c = '\t' then ['\\', 't']
  else if c = '\n' then ['\\', 'n']
  else if c = '\r' then ['\\', 'r']
  else if c = '"' then ['\\', '"']
  else if c = '\\' then ['\\', '\\']
  else if isPlain c then [c]
  else ['\\', 'u', '\x7b'] ++ Hexadecimal.digits c.toNat ++ ['\x7d']

def quoted (s : String) : String :=
  String.ofList (['"'] ++ s.toList.flatMap quotedChar ++ ['"'])

end SemanticHighlight.Text
