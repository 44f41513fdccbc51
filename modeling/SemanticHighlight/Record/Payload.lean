import SemanticHighlight.Highlight.Batch
import SemanticHighlight.Highlight.GroupTable
import SemanticHighlight.Record.Basic
import SemanticHighlight.Text.Lines
import SemanticHighlight.Text.Utf8

/-!
# Worker replies

A reply is a list of records, one a line, in any order. Its lines are put in the order of their
bytes, and every record whose identifier is not ignored and whose kind has a group becomes a
highlight; all other lines are passed over.
-/

set_option autoImplicit false

namespace SemanticHighlight.Record

def byteLE (s t : String) : Bool := decide (Text.bytes s ≤ Text.bytes t)

/-- The lines of a reply that are not empty, in ascending order of their bytes. -/
def sortedLines (payload : String) : List String :=
  let lines := (Text.pieces '\n' payload.toList).map Text.dropReturn
  ((lines.filter (· ≠ [])).map String.ofList).mergeSort byteLE

def op? (table : GroupTable) (buffer : BufferId) (space : NamespaceId) (line : String) :
    Option Op :=
  match read? line with
  | none => none
  | some r =>
    if table.isIgnored r.ident then none
    else (table.group? r.kind).map fun group => .highlight buffer space group r.span

def ops (table : GroupTable) (buffer : BufferId) (space : NamespaceId) (payload : String) :
    List Op :=
  (sortedLines payload).filterMap (op? table buffer space)

def into (table : GroupTable) (buffer : BufferId) (space : NamespaceId) (payload : String)
    (batch : Batch) : Batch × Nat :=
  let added := ops table buffer space payload
  (batch.append added, added.length)

end SemanticHighlight.Record
