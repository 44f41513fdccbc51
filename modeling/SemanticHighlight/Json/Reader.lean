import SemanticHighlight.Json.Lexer

/-!
# Reading JSON

A text is one value, with white space around it. The reader goes through the tokens once and keeps
the containers that are still open, innermost first, and what may come next.
-/

set_option autoImplicit false

namespace SemanticHighlight.Json

abbrev Member := Option String × Json

/-- A container that is still open: its complete items, or its complete members and the key whose
value is due, latest first. -/
inductive Open where
  | arr (items : List Json)
  | obj (members : List Member) (key : Option String)

inductive Expecting where
  | value
  | firstItem
  | firstKey
  | key (members : List Member)
  | colon (members : List Member) (key : Option String)
  | afterValue (v : Json)

structure Reading where
  stack : List Open
  expecting : Expecting

def beginValue (stack : List Open) : Token → Option Reading
  | .openArr => some ⟨.arr [] :: stack, .firstItem⟩
  | .openObj => some ⟨stack, .firstKey⟩
  | .null => some ⟨stack, .afterValue .null⟩
  | .bool b => some ⟨stack, .afterValue (.bool b)⟩
  | .int n => some ⟨stack, .afterValue (.int n)⟩
  | .real l => some ⟨stack, .afterValue (.real l)⟩
  | .text s => some ⟨stack, .afterValue (.str s)⟩
  | .closeArr | .closeObj | .comma | .colon => none

def step : Reading → Token → Option Reading
  | ⟨stack, .value⟩, t => beginValue stack t
  | ⟨.arr [] :: stack, .firstItem⟩, .closeArr => some ⟨stack, .afterValue (.arr [])⟩
  | ⟨stack, .firstItem⟩, t => beginValue stack t
  | ⟨stack, .firstKey⟩, .closeObj => some ⟨stack, .afterValue (.obj [])⟩
  | ⟨stack, .firstKey⟩, .text k => some ⟨stack, .colon [] k⟩
  | ⟨stack, .key ms⟩, .text k => some ⟨stack, .colon ms k⟩
  | ⟨stack, .colon ms k⟩, .colon => some ⟨.obj ms k :: stack, .value⟩
  | ⟨.arr vs :: stack, .afterValue v⟩, .comma => some ⟨.arr (v :: vs) :: stack, .value⟩
  | ⟨.obj ms k :: stack, .afterValue v⟩, .comma => some ⟨stack, .key ((k, v) :: ms)⟩
  | ⟨.arr vs :: stack, .afterValue v⟩, .closeArr =>
    some ⟨stack, .afterValue (.arr (v :: vs).reverse)⟩
  | ⟨.obj ms k :: stack, .afterValue v⟩, .closeObj =>
    some ⟨stack, .afterValue (.obj ((k, v) :: ms).reverse)⟩
  | _, _ => none

def steps : Reading → List Token → Option Reading
  | r, [] => some r
  | r, t :: ts => (step r t).bind fun r => steps r ts

def Reading.result? : Reading → Option Json
  | ⟨[], .afterValue v⟩ => some v
  | _ => none

def ofTokens? (ts : List Token) : Option Json := (steps ⟨[], .value⟩ ts).bind Reading.result?

def read? (text : List Char) : Option Json := (lex text).bind ofTokens?

end SemanticHighlight.Json
