import SemanticHighlight.Highlight.Op
import SemanticHighlight.Highlight.Tag
import SemanticHighlight.Text.Blank
import SemanticHighlight.Text.Decimal
import SemanticHighlight.Text.Utf8

/-!
# Worker records

A worker reports an identifier as a line of seven fields between tabs: kind, start line, start
column, end line, end column, length of the identifier in bytes, identifier. The identifier ends at
its first blank character, at its announced length, and at 1023 bytes. `read?` reads back what
`row` writes.
-/

set_option autoImplicit false

namespace SemanticHighlight

structure Record where
  kind : Tag
  startLine : UInt32
  startCol : UInt32
  endLine : UInt32
  endCol : UInt32
  ident : String
  deriving DecidableEq, Repr

namespace Record

def maxIdent : Nat := 1023

def takeBytes? : Nat → List Char → Option (List Char)
  | 0, _ => some []
  | _, [] => some []
  | limit, c :: cs =>
    if c.utf8Size ≤ limit then (takeBytes? (limit - c.utf8Size) cs).map (c :: ·) else none

def cutTab? : List Char → Option (List Char × List Char)
  | [] => none
  | c :: cs =>
    if c = '\t' then some ([], cs)
    else (cutTab? cs).map fun (field, rest) => (c :: field, rest)

def kind? : List Char → Option Tag
  | [c] => some ⟨c⟩
  | _ => none

def u32? (cs : List Char) : Option UInt32 :=
  (Text.Decimal.read? UInt32.size cs).map UInt32.ofNat

def ident? (announced : Nat) (cs : List Char) : Option (List Char) :=
  let word := cs.takeWhile (!Text.isBlank ·)
  (takeBytes? (min (Text.byteLength word) (min maxIdent announced)) word).filter (· ≠ [])

def ofChars? (line : List Char) : Option Record := do
  let (kind, rest) ← cutTab? line
  let (startLine, rest) ← cutTab? rest
  let (startCol, rest) ← cutTab? rest
  let (endLine, rest) ← cutTab? rest
  let (endCol, rest) ← cutTab? rest
  let (length, rest) ← cutTab? rest
  let kind ← kind? kind
  let startLine ← u32? startLine
  let startCol ← u32? startCol
  let endLine ← u32? endLine
  let endCol ← u32? endCol
  let length ← Text.Decimal.read? UInt64.size length
  let ident ← ident? length rest
  some ⟨kind, startLine, startCol, endLine, endCol, String.ofList ident⟩

def read? (line : String) : Option Record := ofChars? line.toList

def row (kind : Char) (startLine startCol endLine endCol : Nat) (ident : List Char) : List Char :=
  kind :: '\t' :: Text.Decimal.digits startLine ++ '\t' :: Text.Decimal.digits startCol ++
    '\t' :: Text.Decimal.digits endLine ++ '\t' :: Text.Decimal.digits endCol ++
    '\t' :: Text.Decimal.digits (Text.byteLength ident) ++ '\t' :: ident

def line (r : Record) : String :=
  String.ofList (row r.kind.letter r.startLine.toNat r.startCol.toNat r.endLine.toNat r.endCol.toNat
    r.ident.toList)

def span (r : Record) : Span := ⟨r.startLine, r.startCol, r.endCol⟩

end Record

end SemanticHighlight
